import Mathlib

set_option autoImplicit false

/-!
# The longest prefix

A prefix of a list comes before the list in the lexicographic order. The prefixes of one list
are prefixes of one another, so that order and length agree on them.
-/
namespace Rockets
variable {α : Type*}

def IsLongest (S : Set (List α)) (e : List α) : Prop := e ∈ S ∧ ∀ d ∈ S, d.length ≤ e.length

section Prefixes
variable [LinearOrder α] {d e path : List α}

theorem prefix_le (h : d <+: e) : d ≤ e := not_lt.mp fun hlt => List.IsPrefix.le h hlt

theorem prefixes_le_iff (hd : d <+: path) (he : e <+: path) :
    d ≤ e ↔ d.length ≤ e.length := by
  constructor
  · intro hle
    by_contra hlen
    have hpre : e <+: d := List.prefix_of_prefix_length_le he hd (by omega)
    have heq : d = e := le_antisymm hle (prefix_le hpre)
    exact hlen (by rw [heq])
  · intro hlen
    exact prefix_le (List.prefix_of_prefix_length_le hd he hlen)

/-- Of any set of prefixes the longest is the greatest. -/
theorem isLongest_iff_isGreatest {S : Set (List α)} (hS : ∀ d ∈ S, d <+: path) :
    IsLongest S e ↔ IsGreatest S e := by
  constructor
  · rintro ⟨he, hlongest⟩
    exact ⟨he, fun d hd => (prefixes_le_iff (hS d hd) (hS e he)).mpr (hlongest d hd)⟩
  · rintro ⟨he, hgreatest⟩
    exact ⟨he, fun d hd => (prefixes_le_iff (hS d hd) (hS e he)).mp (hgreatest hd)⟩

end Prefixes
end Rockets
