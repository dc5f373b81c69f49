import Mathlib

set_option autoImplicit false

/-!
# Machines driven by an environment

A machine has a state and a step function; which step is taken next is the
environment's choice. Runs are finite sequences of steps. A `guard` singles out
the runs all of whose steps meet a condition on the state before the step.
-/
namespace Rockets

structure Machine (σ ε : Type*) where
  init : σ
  Enabled : σ → ε → Prop
  next : σ → ε → σ

namespace Machine
variable {σ τ ε φ : Type*}

/-- Runs from `s`: every step is enabled and meets the guard `G`. -/
inductive Path (M : Machine σ ε) (G : σ → ε → Prop) (s : σ) : List ε → σ → Prop where
  | nil : Path M G s [] s
  | snoc {es : List ε} {u : σ} {e : ε} (run : Path M G s es u)
      (enabled : M.Enabled u e) (guard : G u e) : Path M G s (es ++ [e]) (M.next u e)

abbrev Guarded (M : Machine σ ε) (G : σ → ε → Prop) : List ε → σ → Prop := M.Path G M.init

/-- Any run: no condition beyond what the machine itself can do. -/
abbrev Run (M : Machine σ ε) : List ε → σ → Prop := M.Guarded (fun _ _ => True)

variable {M : Machine σ ε} {N : Machine τ φ} {G : σ → ε → Prop} {H : τ → φ → Prop}

theorem Path.single {s : σ} {e : ε} (he : M.Enabled s e) (hg : G s e) :
    M.Path G s [e] (M.next s e) := by
  simpa only [List.nil_append] using Path.snoc (.nil (s := s)) he hg

theorem Path.trans {s u v : σ} {es fs : List ε} (h : M.Path G s es u) (h' : M.Path G u fs v) :
    M.Path G s (es ++ fs) v := by
  induction h' with
  | nil => simpa only [List.append_nil] using h
  | snoc _ he hg ih => simpa only [List.append_assoc] using Path.snoc ih he hg

theorem Path.cons {s u : σ} {e : ε} {es : List ε} (he : M.Enabled s e) (hg : G s e)
    (h : M.Path G (M.next s e) es u) : M.Path G s (e :: es) u :=
  (Path.single he hg).trans h

theorem Path.mono {G' : σ → ε → Prop} {s u : σ} {es : List ε} (h : M.Path G s es u)
    (hG : ∀ v e, G v e → G' v e) : M.Path G' s es u := by
  induction h with
  | nil => exact .nil
  | snoc _ he hg ih => exact .snoc ih he (hG _ _ hg)

theorem Path.run {s u : σ} {es : List ε} (h : M.Path G s es u) :
    M.Path (fun _ _ => True) s es u :=
  h.mono fun _ _ _ => trivial

/-- What holds at the start and is preserved by every guarded step holds at the end. -/
theorem Path.invariant {I : σ → Prop} {s u : σ} {es : List ε} (h : M.Path G s es u)
    (hs : I s) (hstep : ∀ v e, I v → M.Enabled v e → G v e → I (M.next v e)) : I u := by
  induction h with
  | nil => exact hs
  | snoc _ he hg ih => exact hstep _ _ ih he hg

/-- A step of `M` is matched by a segment of `N`: then so is every run of `M`. -/
theorem Path.simulate {R : σ → τ → Prop} {s u : σ} {t : τ} {es : List ε}
    (h : M.Path G s es u) (hR : R s t)
    (hstep : ∀ v w e, R v w → M.Enabled v e → G v e →
      ∃ fs w', N.Path H w fs w' ∧ R (M.next v e) w') :
    ∃ fs w', N.Path H t fs w' ∧ R u w' := by
  induction h with
  | nil => exact ⟨[], t, .nil, hR⟩
  | snoc _ he hg ih =>
    obtain ⟨fs, w, hw, hR'⟩ := ih
    obtain ⟨gs, w', hw', hR''⟩ := hstep _ w _ hR' he hg
    exact ⟨fs ++ gs, w', hw.trans hw', hR''⟩

theorem Path.of_snoc {s u : σ} {es : List ε} {e : ε} (h : M.Path G s (es ++ [e]) u) :
    ∃ v, M.Path G s es v ∧ M.Enabled v e ∧ G v e ∧ u = M.next v e := by
  generalize hfs : es ++ [e] = fs at h
  cases h with
  | nil => simp at hfs
  | snoc run enabled guard =>
    obtain ⟨rfl, rfl⟩ := List.append_singleton_inj.mp hfs
    exact ⟨_, run, enabled, guard, rfl⟩

/-- Two machines given the same events: what relates their states is kept step by step. -/
theorem Path.lockstep {N : Machine τ ε} {H : τ → ε → Prop} {R : σ → τ → Prop} {s u : σ}
    {t v : τ} {es : List ε} (h : M.Path G s es u) (h' : N.Path H t es v) (hR : R s t)
    (hstep : ∀ u v e, R u v → M.Enabled u e → G u e → N.Enabled v e → H v e →
      R (M.next u e) (N.next v e)) : R u v := by
  induction h generalizing v with
  | nil =>
    generalize hfs : ([] : List ε) = fs at h'
    cases h' with
    | nil => exact hR
    | snoc => simp at hfs
  | snoc _ he hg ih =>
    obtain ⟨w, hw, he', hg', rfl⟩ := h'.of_snoc
    exact hstep _ _ _ (ih hw) he hg he' hg'

/-- Execute a list of events, stopping at the first one that is not enabled or guarded. -/
def exec (M : Machine σ ε) (G : σ → ε → Prop) [∀ s e, Decidable (M.Enabled s e)]
    [∀ s e, Decidable (G s e)] : σ → List ε → Option σ
  | s, [] => some s
  | s, e :: es => if M.Enabled s e ∧ G s e then exec M G (M.next s e) es else none

theorem Path.of_exec [∀ s e, Decidable (M.Enabled s e)] [∀ s e, Decidable (G s e)]
    {s u : σ} {es : List ε} (h : M.exec G s es = some u) : M.Path G s es u := by
  induction es generalizing s with
  | nil =>
    obtain rfl : s = u := by simpa only [exec, Option.some.injEq] using h
    exact .nil
  | cons e es ih =>
    simp only [exec, Option.ite_none_right_eq_some] at h
    exact .cons h.1.1 h.1.2 (ih h.2)

/-- The state a list of events that can be executed leads to. -/
theorem Path.of_isSome [∀ s e, Decidable (M.Enabled s e)] [∀ s e, Decidable (G s e)]
    (s : σ) (es : List ε) (h : (M.exec G s es).isSome) : M.Path G s es ((M.exec G s es).get h) :=
  .of_exec (Option.some_get h).symm

/-- If every step can always be taken, every list of events is a path. -/
theorem Path.of_foldl (he : ∀ s e, M.Enabled s e) (hg : ∀ s e, G s e) (s : σ) (es : List ε) :
    M.Path G s es (es.foldl M.next s) := by
  induction es generalizing s with
  | nil => exact .nil
  | cons e es ih => exact .cons (he s e) (hg s e) (ih (M.next s e))

/-- The machine run beside an observer that only sees the events. -/
def observed (M : Machine σ ε) (init : τ) (obs : τ → ε → τ) : Machine (σ × τ) ε where
  init := (M.init, init)
  Enabled s e := M.Enabled s.1 e
  next s e := (M.next s.1 e, obs s.2 e)

end Machine
end Rockets
