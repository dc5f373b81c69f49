import Mathlib

set_option autoImplicit false

/-!
# Loops

A loop is given by its turn, which ends with a result or goes on from another state, and by
a measure that falls with every turn that goes on. Such a loop always ends.
-/
namespace Rockets

structure Loop (σ α : Type*) where
  turn : σ → α ⊕ σ
  measure : σ → ℕ
  falls : ∀ {s t}, turn s = .inr t → measure t < measure s

namespace Loop
variable {σ τ α β : Type*} (L : Loop σ α)

/-- At most `n` turns, with the proof that more are never needed. -/
def turns : (n : ℕ) → (s : σ) → L.measure s < n → α
  | 0, _, h => absurd h (Nat.not_lt_zero _)
  | n + 1, s, h => match ht : L.turn s with
    | .inl a => a
    | .inr t => turns n t (lt_of_lt_of_le (L.falls ht) (Nat.lt_succ_iff.mp h))

def run (s : σ) : α := L.turns (L.measure s + 1) s (Nat.lt_succ_self _)

variable {L}

theorem turns_inl {n : ℕ} {s : σ} {a : α} (hn : L.measure s < n) (h : L.turn s = .inl a) :
    L.turns n s hn = a := by
  cases n with
  | zero => exact absurd hn (Nat.not_lt_zero _)
  | succ n =>
    rw [turns]
    split
    · next b hb => exact Sum.inl.inj (hb.symm.trans h)
    · next t ht => cases ht.symm.trans h

theorem turns_inr {n : ℕ} {s t : σ} (hn : L.measure s < n + 1) (h : L.turn s = .inr t) :
    L.turns (n + 1) s hn =
      L.turns n t (lt_of_lt_of_le (L.falls h) (Nat.lt_succ_iff.mp hn)) := by
  rw [turns]
  split
  · next b hb => cases hb.symm.trans h
  · next u hu =>
    obtain rfl : t = u := Sum.inr.inj (h.symm.trans hu)
    rfl

/-- How many turns are allowed makes no difference. -/
theorem turns_eq {m n : ℕ} {s : σ} (hm : L.measure s < m) (hn : L.measure s < n) :
    L.turns m s hm = L.turns n s hn := by
  induction m generalizing n s with
  | zero => exact absurd hm (Nat.not_lt_zero _)
  | succ m ih =>
    cases n with
    | zero => exact absurd hn (Nat.not_lt_zero _)
    | succ n =>
      cases ht : L.turn s with
      | inl a => rw [turns_inl hm ht, turns_inl hn ht]
      | inr t => rw [turns_inr hm ht, turns_inr hn ht]; exact ih _ _

theorem run_inl {s : σ} {a : α} (h : L.turn s = .inl a) : L.run s = a := turns_inl _ h

theorem run_inr {s t : σ} (h : L.turn s = .inr t) : L.run s = L.run t :=
  (turns_inr _ h).trans (turns_eq _ _)

theorem run_congr {s t : σ} (h : L.turn s = L.turn t) : L.run s = L.run t := by
  cases ht : L.turn t with
  | inl a => rw [run_inl ht, run_inl (h.trans ht)]
  | inr u => rw [run_inr ht, run_inr (h.trans ht)]

/-- What each turn keeps holds until the end. -/
theorem run_rule {I : σ → Prop} {Q : α → Prop} {s : σ} (hs : I s)
    (ends : ∀ s a, I s → L.turn s = .inl a → Q a)
    (goesOn : ∀ s t, I s → L.turn s = .inr t → I t) : Q (L.run s) := by
  induction hm : L.measure s using Nat.strong_induction_on generalizing s with
  | _ m ih =>
    cases ht : L.turn s with
    | inl a => exact run_inl ht ▸ ends s a hs ht
    | inr t =>
      rw [run_inr ht]
      exact ih _ (hm ▸ L.falls ht) (goesOn s t hs ht) rfl

end Loop
end Rockets
