import Mathlib

set_option autoImplicit false

/-!
# Latest values

Values that are reported for keys over and over again: the table with the latest value of each
key, in the order in which the keys came first, and the mean of the latest values.
-/
namespace Rockets.Latest

section Tables
variable {κ α : Type*}

def keys (es : List (κ × α)) : List κ := es.map Prod.fst

@[simp] theorem keys_cons (e : κ × α) (es : List (κ × α)) : keys (e :: es) = e.1 :: keys es := rfl

variable [DecidableEq κ]

/-- Replace the value of a key where it stands, or append it. -/
def put (k : κ) (a : α) : List (κ × α) → List (κ × α)
  | [] => [(k, a)]
  | e :: es => if e.1 = k then (k, a) :: es else e :: put k a es

variable {k : κ} {a : α} {e : κ × α} {es : List (κ × α)}

theorem keys_put (k : κ) (a : α) (es : List (κ × α)) :
    keys (put k a es) = if k ∈ keys es then keys es else keys es ++ [k] := by
  induction es with
  | nil => rfl
  | cons e es ih =>
    by_cases he : e.1 = k
    · simp [put, he]
    · have hne : k ≠ e.1 := fun h => he h.symm
      simp only [put, if_neg he, keys_cons, ih, List.mem_cons, hne, false_or]
      split_ifs <;> rfl

theorem put_put (k : κ) (a : α) (es : List (κ × α)) : put k a (put k a es) = put k a es := by
  induction es with
  | nil => simp [put]
  | cons e es ih =>
    by_cases he : e.1 = k
    · simp [put, he]
    · simp only [put, if_neg he, ih]

theorem nodup_keys_put (h : (keys es).Nodup) : (keys (put k a es)).Nodup := by
  rw [keys_put]
  split_ifs with hk
  · exact h
  · refine List.nodup_append.mpr ⟨h, List.nodup_singleton k, fun j hj i hi => ?_⟩
    rintro rfl
    exact hk (List.mem_singleton.mp hi ▸ hj)

theorem mem_put (h : (keys es).Nodup) :
    e ∈ put k a es ↔ e = (k, a) ∨ e ∈ es ∧ e.1 ≠ k := by
  induction es with
  | nil => simp [put]
  | cons d es ih =>
    obtain ⟨hd, hes⟩ := List.nodup_cons.mp h
    by_cases hk : d.1 = k
    · have hrest (he : e ∈ es) : e.1 ≠ k := fun heq =>
        hd (hk.trans heq.symm ▸ List.mem_map_of_mem he)
      simp only [put, if_pos hk, List.mem_cons]
      grind
    · simp only [put, if_neg hk, List.mem_cons, ih hes]
      grind

end Tables

section Values
variable {κ M : Type*} [DecidableEq κ] [AddCommMonoid M]

/-- The value that was reported last for a key, and zero if none was. -/
def latest (ps : List (κ × M)) (k : κ) : M :=
  ps.foldl (fun m p => if p.1 = k then p.2 else m) 0

@[simp] theorem latest_append_singleton (ps : List (κ × M)) (p : κ × M) (k : κ) :
    latest (ps ++ [p]) k = if p.1 = k then p.2 else latest ps k := by
  simp [latest, List.foldl_append]

theorem latest_eq_zero_or_mem (ps : List (κ × M)) (k : κ) :
    latest ps k = 0 ∨ (k, latest ps k) ∈ ps := by
  induction ps using List.reverseRecOn with
  | nil => exact .inl rfl
  | append_singleton ps p ih =>
    rw [latest_append_singleton]
    split_ifs with hk
    · exact .inr (by simp [← hk])
    · exact ih.imp_right (List.mem_append_left [p])

/-- A value that is reported first adds to the sum for each place of its key. -/
theorem sum_latest_append_singleton {ps : List (κ × M)} {p : κ × M} (h : latest ps p.1 = 0)
    (ids : List κ) : (ids.map (latest (ps ++ [p]))).sum =
      (ids.map (latest ps)).sum + ids.count p.1 • p.2 := by
  induction ids with
  | nil => simp
  | cons id ids ih =>
    rw [List.map_cons, List.map_cons, List.sum_cons, List.sum_cons, ih, latest_append_singleton]
    by_cases hid : p.1 = id
    · subst hid
      rw [if_pos rfl, h, List.count_cons_self, succ_nsmul]
      abel
    · rw [if_neg hid, List.count_cons_of_ne fun heq => hid heq.symm]
      abel

/-- Keys that are there more than once do not matter if nothing is reported for them. -/
theorem sum_dedup {f : κ → M} {ids : List κ} (h : ∀ id, List.Duplicate id ids → f id = 0) :
    (ids.dedup.map f).sum = (ids.map f).sum := by
  rw [Finset.sum_list_map_count ids, ← List.sum_toFinset f (List.nodup_dedup ids)]
  refine Finset.sum_congr (by ext; simp) fun id hid => ?_
  have hpos : 0 < ids.count id := List.count_pos_iff.mpr (by simpa using hid)
  by_cases htwice : 2 ≤ ids.count id
  · rw [h id (List.duplicate_iff_two_le_count.mpr htwice), nsmul_zero]
  · rw [show ids.count id = 1 by omega, one_nsmul]

/-- A table with one entry for each key there was, which holds the latest value. -/
structure Represents (es ps : List (κ × M)) : Prop where
  nodup : (keys es).Nodup
  reported : ∀ e ∈ es, e ∈ ps
  latest : ∀ e ∈ es, e.2 = latest ps e.1
  absent : ∀ k, k ∉ keys es → Latest.latest ps k = 0

theorem Represents.nil : Represents ([] : List (κ × M)) [] :=
  ⟨List.nodup_nil, nofun, nofun, fun _ _ => rfl⟩

theorem Represents.put {es ps : List (κ × M)} (h : Represents es ps) (p : κ × M) :
    Represents (put p.1 p.2 es) (ps ++ [p]) where
  nodup := nodup_keys_put h.nodup
  reported e he := by
    rcases (mem_put h.nodup).mp he with rfl | ⟨hmem, -⟩
    · exact List.mem_append_right _ (List.mem_singleton_self _)
    · exact List.mem_append_left _ (h.reported e hmem)
  latest e he := by
    rw [latest_append_singleton]
    rcases (mem_put h.nodup).mp he with rfl | ⟨hmem, hne⟩
    · rw [if_pos rfl]
    · rw [if_neg hne.symm]
      exact h.latest e hmem
  absent k hk := by
    rw [keys_put] at hk
    rw [latest_append_singleton]
    split_ifs at hk with hp
    · have hne : p.1 ≠ k := fun heq => hk (heq ▸ hp)
      rw [if_neg hne]
      exact h.absent k hk
    · rw [List.mem_append, List.mem_singleton, not_or] at hk
      rw [if_neg fun heq : p.1 = k => hk.2 heq.symm]
      exact h.absent k hk.1

/-- The sum of a table is that of the latest values of all keys there may be. -/
theorem Represents.sum {es ps : List (κ × M)} (h : Represents es ps) {ids : List κ}
    (hids : ids.Nodup) (hmem : ∀ p ∈ ps, p.1 ∈ ids) :
    (es.map Prod.snd).sum = (ids.map (Latest.latest ps)).sum := by
  have hvalues : es.map Prod.snd = (keys es).map (Latest.latest ps) := by
    rw [keys, List.map_map]
    exact List.map_congr_left fun e he => h.latest e he
  rw [hvalues, ← List.sum_toFinset _ h.nodup, ← List.sum_toFinset _ hids]
  refine Finset.sum_subset (fun k hk => ?_) fun k _ hk => ?_
  · obtain ⟨e, he, rfl⟩ := List.mem_map.mp (List.mem_toFinset.mp hk)
    exact List.mem_toFinset.mpr (hmem e (h.reported e he))
  · exact h.absent k fun hmem => hk (List.mem_toFinset.mpr hmem)

end Values

section Means
variable {κ 𝕜 : Type*} [DecidableEq κ] [Field 𝕜]

/-- The mean of the latest values of some keys. -/
def mean (ids : List κ) (ps : List (κ × 𝕜)) : 𝕜 :=
  (ids.map (latest ps)).sum / (ids.length : 𝕜)

/-- What a table says: it has one entry for a key, however often the key is counted. -/
def tableMean (ids : List κ) (ps : List (κ × 𝕜)) : 𝕜 :=
  (ids.dedup.map (latest ps)).sum / (ids.length : 𝕜)

theorem tableMean_of_nodup {ids : List κ} (h : ids.Nodup) (ps : List (κ × 𝕜)) :
    tableMean ids ps = mean ids ps := by
  rw [tableMean, h.dedup, mean]

/-- Keys that are counted more than once have had no value but zero. -/
def NoDouble (ids : List κ) (ps : List (κ × 𝕜)) : Prop :=
  ∀ p ∈ ps, List.Duplicate p.1 ids → p.2 = 0

omit [DecidableEq κ] in
theorem NoDouble.mono {ids : List κ} {ps qs : List (κ × 𝕜)} (h : NoDouble ids ps) (hqs : qs ⊆ ps) :
    NoDouble ids qs :=
  fun p hp => h p (hqs hp)

theorem NoDouble.latest_eq_zero {ids : List κ} {ps : List (κ × 𝕜)} (h : NoDouble ids ps) {id : κ}
    (hid : List.Duplicate id ids) : latest ps id = 0 := by
  rcases latest_eq_zero_or_mem ps id with hzero | hmem
  · exact hzero
  · exact h _ hmem hid

theorem NoDouble.tableMean_eq_mean {ids : List κ} {ps : List (κ × 𝕜)} (h : NoDouble ids ps) :
    tableMean ids ps = mean ids ps := by
  rw [tableMean, sum_dedup fun id hid => h.latest_eq_zero hid, mean]

variable [LinearOrder 𝕜] [IsStrictOrderedRing 𝕜] {ids : List κ} {ps : List (κ × 𝕜)}

theorem sum_le_length {xs : List 𝕜} (h : ∀ x ∈ xs, x ≤ 1) : xs.sum ≤ (xs.length : 𝕜) := by
  simpa using List.sum_le_card_nsmul xs 1 h

theorem sum_eq_length_iff {xs : List 𝕜} (h : ∀ x ∈ xs, x ≤ 1) :
    xs.sum = (xs.length : 𝕜) ↔ ∀ x ∈ xs, x = 1 := by
  induction xs with
  | nil => simp
  | cons x xs ih =>
    obtain ⟨hx, hxs⟩ := List.forall_mem_cons.mp h
    have hsum := sum_le_length hxs
    rw [List.forall_mem_cons, ← ih hxs, List.sum_cons, List.length_cons, Nat.cast_succ]
    constructor
    · intro heq
      exact ⟨by linarith, by linarith⟩
    · rintro ⟨rfl, heq⟩
      rw [heq, add_comm]

omit [IsStrictOrderedRing 𝕜] in
theorem latest_nonneg (h : ∀ p ∈ ps, 0 ≤ p.2) (k : κ) : 0 ≤ latest ps k := by
  rcases latest_eq_zero_or_mem ps k with hzero | hmem
  · exact hzero.ge
  · exact h _ hmem

theorem latest_le_one (h : ∀ p ∈ ps, p.2 ≤ 1) (k : κ) : latest ps k ≤ 1 := by
  rcases latest_eq_zero_or_mem ps k with hzero | hmem
  · exact hzero.le.trans zero_le_one
  · exact h _ hmem

theorem mean_nonneg (h : ∀ p ∈ ps, 0 ≤ p.2) : 0 ≤ mean ids ps := by
  refine div_nonneg (List.sum_nonneg fun x hx => ?_) (Nat.cast_nonneg _)
  obtain ⟨k, -, rfl⟩ := List.mem_map.mp hx
  exact latest_nonneg h k

theorem mean_le_one (h : ∀ p ∈ ps, p.2 ≤ 1) : mean ids ps ≤ 1 := by
  have hsum : (ids.map (latest ps)).sum ≤ ((ids.map (latest ps)).length : 𝕜) := by
    refine sum_le_length fun x hx => ?_
    obtain ⟨k, -, rfl⟩ := List.mem_map.mp hx
    exact latest_le_one h k
  rw [List.length_map] at hsum
  exact div_le_one_of_le₀ hsum (Nat.cast_nonneg _)

theorem mean_eq_one_iff (hids : ids ≠ []) (h : ∀ p ∈ ps, p.2 ≤ 1) :
    mean ids ps = 1 ↔ ∀ id ∈ ids, latest ps id = 1 := by
  have hlength : (ids.length : 𝕜) ≠ 0 := by simpa using hids
  have hle : ∀ x ∈ ids.map (latest ps), x ≤ 1 := by
    intro x hx
    obtain ⟨k, -, rfl⟩ := List.mem_map.mp hx
    exact latest_le_one h k
  have hsum := sum_eq_length_iff hle
  rw [List.length_map] at hsum
  rw [mean, div_eq_one_iff_eq hlength, hsum, List.forall_mem_map]

theorem tableMean_le_mean (h : ∀ p ∈ ps, 0 ≤ p.2) : tableMean ids ps ≤ mean ids ps := by
  have hsum : (ids.dedup.map (latest ps)).sum ≤ (ids.map (latest ps)).sum := by
    refine ((List.dedup_sublist ids).map _).sum_le_sum fun m hm => ?_
    obtain ⟨id, -, rfl⟩ := List.mem_map.mp hm
    exact latest_nonneg h id
  exact div_le_div_of_nonneg_right hsum (Nat.cast_nonneg _)

/-- A key that is counted more than once adds more to the mean than to the table. -/
theorem NoDouble.means_append_singleton (h : NoDouble ids ps) {p : κ × 𝕜}
    (htwice : List.Duplicate p.1 ids) (hpos : 0 < p.2) :
    tableMean ids (ps ++ [p]) < mean ids (ps ++ [p]) ∧ mean ids ps < mean ids (ps ++ [p]) := by
  have hzero := h.latest_eq_zero htwice
  have hlength : (0 : 𝕜) < ids.length := by
    exact_mod_cast List.length_pos_of_mem htwice.mem
  have hone : ids.dedup.count p.1 = 1 :=
    List.count_eq_one_of_mem (List.nodup_dedup _) (List.mem_dedup.mpr htwice.mem)
  have hcount : (2 : 𝕜) ≤ ids.count p.1 := by
    exact_mod_cast List.duplicate_iff_two_le_count.mp htwice
  have hmore : p.2 < ids.count p.1 * p.2 := by nlinarith
  have htable : (ids.dedup.map (latest ps)).sum = (ids.map (latest ps)).sum :=
    sum_dedup fun id hid => h.latest_eq_zero hid
  simp only [tableMean, mean, sum_latest_append_singleton hzero, hone, htable, nsmul_eq_mul,
    Nat.cast_one, one_mul, div_lt_div_iff_of_pos_right hlength]
  constructor <;> linarith

end Means
end Rockets.Latest
