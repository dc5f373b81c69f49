import Rockets.JsonStrings

set_option autoImplicit false

/-!
# Numbers as the lexer reads them

The labels of `scan_number` are the states of an automaton. The texts that lead it to a label
at which a number may end are the numerals of the grammar.
-/
namespace Rockets.Lexing
open Grammar
open Http (isDigit numeral)

namespace NumberState

/-- The label after one more character of the number. -/
def step (q : NumberState) (c : Fin 256) : Option NumberState := (q.next (some c)).toOption.join

def walk : NumberState → Bytes → Option NumberState
  | q, [] => some q
  | q, c :: cs => (q.step c).bind fun q => walk q cs

def Accepting (q : NumberState) : Prop := q = .zero ∨ q = .any1 ∨ q = .decimal2 ∨ q = .any2

section Steps
variable (c : Fin 256)

theorem step_any2 : step .any2 c = if isDigit c then some .any2 else none := by
  simp only [step, next, Option.any_some]
  split_ifs <;> rfl

theorem step_sign : step .sign c = if isDigit c then some .any2 else none := by
  simp only [step, next, Option.any_some]
  split_ifs <;> rfl

theorem step_exponent : step .exponent c =
    if c = 0x2B ∨ c = 0x2D then some .sign else if isDigit c then some .any2 else none := by
  simp only [step, next, Option.any_some, Option.some.injEq]
  split_ifs <;> rfl

theorem step_decimal2 : step .decimal2 c = if isDigit c then some .decimal2
    else if c = 0x65 ∨ c = 0x45 then some .exponent else none := by
  simp only [step, next, Option.any_some, Option.some.injEq]
  split_ifs <;> rfl

theorem step_decimal1 : step .decimal1 c = if isDigit c then some .decimal2 else none := by
  simp only [step, next, Option.any_some]
  split_ifs <;> rfl

theorem step_zero : step .zero c = if c = 0x2E then some .decimal1
    else if c = 0x65 ∨ c = 0x45 then some .exponent else none := by
  simp only [step, next, Option.some.injEq]
  split_ifs <;> rfl

theorem step_any1 : step .any1 c = if isDigit c then some .any1
    else step .zero c := by
  rw [step_zero]
  simp only [step, next, Option.any_some, Option.some.injEq]
  split_ifs <;> rfl

theorem step_minus : step .minus c = if c = 0x30 then some .zero
    else if isDigit c then some .any1 else none := by
  simp only [step, next, Option.any_some, Option.some.injEq]
  split_ifs <;> rfl

end Steps

section Walks
variable {f : NumberState} {x : Bytes}

theorem walk_cons {q : NumberState} {c : Fin 256} :
    walk q (c :: x) = some f ↔ ∃ q', q.step c = some q' ∧ walk q' x = some f :=
  Option.bind_eq_some_iff

theorem walk_any2 : walk .any2 x = some f ↔ f = .any2 ∧ x.all isDigit = true := by
  induction x with
  | nil => simp [walk, eq_comm]
  | cons c x ih =>
    rw [walk_cons, step_any2, List.all_cons, Bool.and_eq_true]
    split_ifs with hc
    · simp [ih, hc]
    · simp [hc]

theorem walk_sign (hf : f.Accepting) :
    walk .sign x = some f ↔ f = .any2 ∧ x ≠ [] ∧ x.all isDigit = true := by
  cases x with
  | nil =>
    have hne : f ≠ .sign := by rintro rfl; simp [Accepting] at hf
    simp [walk, hne.symm]
  | cons c x =>
    rw [walk_cons, step_sign, List.all_cons, Bool.and_eq_true]
    split_ifs with hc
    · simp [walk_any2, hc]
    · simp [hc]

theorem walk_exponent (hf : f.Accepting) : walk .exponent x = some f ↔ f = .any2 ∧
    ∃ sign ds, x = sign ++ ds ∧ IsSign sign ∧ ds ≠ [] ∧ ds.all isDigit = true := by
  cases x with
  | nil =>
    have hne : f ≠ .exponent := by rintro rfl; simp [Accepting] at hf
    simp only [walk, Option.some.injEq, hne.symm, false_iff]
    rintro ⟨-, sign, ds, h, -, hds, -⟩
    exact hds (List.append_eq_nil_iff.mp h.symm).2
  | cons c x =>
    rw [walk_cons, step_exponent]
    constructor
    · split_ifs with hsign hc
      · rintro ⟨q, hq, hwalk⟩
        cases hq
        obtain ⟨rfl, hne, hdigits⟩ := (walk_sign hf).mp hwalk
        exact ⟨rfl, [c], x, rfl, .inr (by simpa using hsign), hne, hdigits⟩
      · rintro ⟨q, hq, hwalk⟩
        cases hq
        obtain ⟨rfl, hdigits⟩ := walk_any2.mp hwalk
        exact ⟨rfl, [], c :: x, rfl, .inl rfl, by simp, by simp [hc, hdigits]⟩
      · rintro ⟨q, hq, -⟩
        cases hq
    · rintro ⟨rfl, sign, ds, hx, hsign, hne, hdigits⟩
      rcases hsign with rfl | hsign
      · obtain rfl : c :: x = ds := hx
        rw [List.all_cons, Bool.and_eq_true] at hdigits
        have hc : ¬ (c = 0x2B ∨ c = 0x2D) := by
          rintro (rfl | rfl) <;> exact absurd hdigits.1 (by decide)
        rw [if_neg hc, if_pos hdigits.1]
        exact ⟨_, rfl, walk_any2.mpr ⟨rfl, hdigits.2⟩⟩
      · have hc : (c = 0x2B ∨ c = 0x2D) ∧ x = ds := by
          rcases hsign with rfl | rfl <;> simp at hx <;> simp [hx]
        rw [if_pos hc.1]
        exact ⟨_, rfl, (walk_sign hf).mpr ⟨rfl, hc.2 ▸ hne, hc.2 ▸ hdigits⟩⟩

theorem walk_isExponent (hf : f.Accepting) {c : Fin 256} (hc : c = 0x65 ∨ c = 0x45) :
    walk .exponent x = some f ↔ f = .any2 ∧ IsExponent (c :: x) := by
  rw [walk_exponent hf]
  constructor
  · rintro ⟨rfl, sign, ds, rfl, hsign, hne, hdigits⟩
    exact ⟨rfl, c, sign, ds, rfl, hc, hsign, hne, hdigits⟩
  · rintro ⟨rfl, e, sign, ds, hx, -, hsign, hne, hdigits⟩
    exact ⟨rfl, sign, ds, (List.cons.inj hx).2, hsign, hne, hdigits⟩

theorem isExponent_head {c : Fin 256} (h : IsExponent (c :: x)) :
    (c = 0x65 ∨ c = 0x45) ∧ isDigit c = false := by
  obtain ⟨e, sign, ds, hx, he, -⟩ := h
  obtain ⟨rfl, -⟩ := List.cons.inj hx
  exact ⟨he, by rcases he with rfl | rfl <;> decide⟩

/-- At a label that any number of digits lead back to: the digits, then what else may follow. -/
theorem walk_digits {q : NumberState} {T : Bytes → Prop}
    (hdigit : ∀ c, isDigit c = true → q.step c = some q) (hnil : q = f ↔ T [])
    (hother : ∀ c x, isDigit c = false → (walk q (c :: x) = some f ↔ T (c :: x)))
    (hT : ∀ c x, T (c :: x) → isDigit c = false) :
    walk q x = some f ↔ ∃ ds t, x = ds ++ t ∧ ds.all isDigit = true ∧ T t := by
  induction x with
  | nil =>
    simp only [walk, Option.some.injEq, hnil]
    constructor
    · exact fun h => ⟨[], [], rfl, rfl, h⟩
    · rintro ⟨ds, t, h, -, ht⟩
      obtain ⟨-, rfl⟩ := List.append_eq_nil_iff.mp h.symm
      exact ht
  | cons c x ih =>
    cases hc : isDigit c with
    | true =>
      rw [walk_cons, hdigit c hc]
      simp only [Option.some.injEq, exists_eq_left', ih]
      constructor
      · rintro ⟨ds, t, rfl, hds, ht⟩
        exact ⟨c :: ds, t, rfl, by simp [hc, hds], ht⟩
      · rintro ⟨ds, t, hx, hds, ht⟩
        cases ds with
        | nil =>
          obtain rfl : c :: x = t := hx
          exact absurd (hT c x ht) (by simp [hc])
        | cons d ds =>
          obtain ⟨rfl, rfl⟩ := List.cons.inj hx
          rw [List.all_cons, Bool.and_eq_true] at hds
          exact ⟨ds, t, rfl, hds.2, ht⟩
    | false =>
      rw [hother c x hc]
      constructor
      · exact fun h => ⟨[], c :: x, rfl, rfl, h⟩
      · rintro ⟨ds, t, hx, hds, ht⟩
        cases ds with
        | nil =>
          obtain rfl : c :: x = t := hx
          exact ht
        | cons d ds =>
          obtain ⟨rfl, -⟩ := List.cons.inj hx
          simp [hc] at hds

theorem walk_decimal2 (hf : f.Accepting) : walk .decimal2 x = some f ↔ ∃ ds t, x = ds ++ t ∧
    ds.all isDigit = true ∧ ((f = .decimal2 ∧ t = []) ∨ (f = .any2 ∧ IsExponent t)) := by
  refine walk_digits (fun c hc => by rw [step_decimal2, if_pos hc]) ?_ (fun c x hc => ?_)
    (fun c x h => ?_)
  · constructor
    · exact fun h => .inl ⟨h.symm, rfl⟩
    · rintro (⟨h, -⟩ | ⟨-, h⟩)
      · exact h.symm
      · obtain ⟨e, sign, ds, h, -⟩ := h
        cases h
  · rw [walk_cons, step_decimal2, if_neg (by simp [hc])]
    split_ifs with he
    · simp [walk_isExponent hf he]
    · simp only [false_and, exists_false, and_false, false_or, false_iff]
      exact fun h => he (isExponent_head h.2).1
  · rcases h with ⟨-, h⟩ | ⟨-, h⟩
    · cases h
    · exact (isExponent_head h).2

theorem walk_decimal1 (hf : f.Accepting) : walk .decimal1 x = some f ↔ ∃ ds t, x = ds ++ t ∧
    ds ≠ [] ∧ ds.all isDigit = true ∧
    ((f = .decimal2 ∧ t = []) ∨ (f = .any2 ∧ IsExponent t)) := by
  cases x with
  | nil =>
    have hne : f ≠ .decimal1 := by rintro rfl; simp [Accepting] at hf
    simp only [walk, Option.some.injEq, hne.symm, false_iff]
    rintro ⟨ds, t, h, hds, -⟩
    exact hds (List.append_eq_nil_iff.mp h.symm).1
  | cons c x =>
    rw [walk_cons, step_decimal1]
    split_ifs with hc
    · simp only [Option.some.injEq, exists_eq_left', walk_decimal2 hf]
      constructor
      · rintro ⟨ds, t, rfl, hds, ht⟩
        exact ⟨c :: ds, t, rfl, by simp, by simp [hc, hds], ht⟩
      · rintro ⟨ds, t, hx, hne, hds, ht⟩
        obtain ⟨d, ds, rfl⟩ := List.exists_cons_of_ne_nil hne
        obtain ⟨rfl, rfl⟩ := List.cons.inj hx
        rw [List.all_cons, Bool.and_eq_true] at hds
        exact ⟨ds, t, rfl, hds.2, ht⟩
    · simp only [false_and, exists_false, false_iff]
      rintro ⟨ds, t, hx, hne, hds, -⟩
      obtain ⟨d, ds, rfl⟩ := List.exists_cons_of_ne_nil hne
      obtain ⟨rfl, -⟩ := List.cons.inj hx
      simp [hc] at hds

/-- What makes a number a float: a fraction, an exponent or both. -/
def Fractional (f : NumberState) (x : Bytes) : Prop :=
  (f = .decimal2 ∧ IsFraction x) ∨
    (f = .any2 ∧ ∃ fr e, x = fr ++ e ∧ (fr = [] ∨ IsFraction fr) ∧ IsExponent e)

theorem Fractional.head {c : Fin 256} (h : Fractional f (c :: x)) :
    c = 0x2E ∨ c = 0x65 ∨ c = 0x45 := by
  rcases h with ⟨-, ds, h, -⟩ | ⟨-, fr, e, hx, rfl | ⟨ds, rfl, -⟩, he⟩
  · exact .inl (List.cons.inj h).1
  · obtain rfl : c :: x = e := hx
    exact .inr (isExponent_head he).1
  · exact .inl (List.cons.inj hx).1

theorem Fractional.ne_nil (h : Fractional f x) : x ≠ [] := by
  rintro rfl
  rcases h with ⟨-, ds, h, -⟩ | ⟨-, fr, e, h, -, b, sign, ds, he, -⟩
  · cases h
  · rw [(List.append_eq_nil_iff.mp h.symm).2] at he
    cases he

theorem walk_zero_cons (hf : f.Accepting) {c : Fin 256} :
    walk .zero (c :: x) = some f ↔ Fractional f (c :: x) := by
  rw [walk_cons, step_zero]
  split_ifs with hdot he
  · subst hdot
    simp only [Option.some.injEq, exists_eq_left', walk_decimal1 hf]
    constructor
    · rintro ⟨ds, t, rfl, hne, hds, ⟨rfl, rfl⟩ | ⟨rfl, ht⟩⟩
      · exact .inl ⟨rfl, ds, by simp, hne, hds⟩
      · exact .inr ⟨rfl, 0x2E :: ds, t, rfl, .inr ⟨ds, rfl, hne, hds⟩, ht⟩
    · rintro (⟨rfl, ds, hx, hne, hds⟩ | ⟨rfl, fr, e, hx, hfr, he⟩)
      · exact ⟨ds, [], by simpa using hx, hne, hds, .inl ⟨rfl, rfl⟩⟩
      · rcases hfr with rfl | ⟨ds, rfl, hne, hds⟩
        · obtain rfl : 0x2E :: x = e := hx
          exact absurd (isExponent_head he).1 (by decide)
        · exact ⟨ds, e, (List.cons.inj hx).2, hne, hds, .inr ⟨rfl, he⟩⟩
  · simp only [Option.some.injEq, exists_eq_left', walk_isExponent hf he]
    constructor
    · rintro ⟨rfl, h⟩
      exact .inr ⟨rfl, [], c :: x, rfl, .inl rfl, h⟩
    · rintro (⟨-, ds, hx, -⟩ | ⟨rfl, fr, e, hx, rfl | ⟨ds, rfl, -⟩, h⟩)
      · exact absurd (List.cons.inj hx).1 hdot
      · obtain rfl : c :: x = e := hx
        exact ⟨rfl, h⟩
      · exact absurd (List.cons.inj hx).1 hdot
  · simp only [false_and, exists_false, false_iff]
    intro h
    rcases h.head with h | h
    · exact hdot h
    · exact he h

theorem walk_any1 (hf : f.Accepting) : walk .any1 x = some f ↔ ∃ ds t, x = ds ++ t ∧
    ds.all isDigit = true ∧ ((f = .any1 ∧ t = []) ∨ Fractional f t) := by
  refine walk_digits (fun c hc => by rw [step_any1, if_pos hc]) ?_ (fun c x hc => ?_)
    (fun c x h => ?_)
  · constructor
    · exact fun h => .inl ⟨h.symm, rfl⟩
    · rintro (⟨h, -⟩ | h)
      · exact h.symm
      · exact absurd rfl h.ne_nil
  · rw [walk_cons, step_any1, if_neg (by simp [hc]), ← walk_cons, walk_zero_cons hf]
    simp
  · rcases h with ⟨-, h⟩ | h
    · cases h
    · rcases h.head with rfl | rfl | rfl <;> decide

/-- A number without its sign starts from the same labels as one after a minus. -/
theorem walk_minus_sound (hf : f.Accepting) (h : walk .minus x = some f) :
    ∃ i t, x = i ++ t ∧ IsInteger i ∧ ((t = [] ∧ (f = .zero ∨ f = .any1)) ∨ Fractional f t) := by
  cases x with
  | nil =>
    obtain rfl := Option.some.inj h
    simp [Accepting] at hf
  | cons c x =>
    rw [walk_cons, step_minus] at h
    split_ifs at h with hzero hc
    · simp only [Option.some.injEq, exists_eq_left'] at h
      refine ⟨[c], x, rfl, .inl (by rw [hzero]), ?_⟩
      cases x with
      | nil => exact .inl ⟨rfl, .inl (Option.some.inj h).symm⟩
      | cons d x => exact .inr ((walk_zero_cons hf).mp h)
    · simp only [Option.some.injEq, exists_eq_left', walk_any1 hf] at h
      obtain ⟨ds, t, rfl, hds, ht⟩ := h
      refine ⟨c :: ds, t, rfl, .inr ⟨c, ds, rfl, hzero, by simp [hc, hds]⟩, ?_⟩
      exact ht.imp (fun h => ⟨h.2, .inr h.1⟩) id
    · simp at h

theorem walk_minus_complete {i : Bytes} (hi : IsInteger i) :
    (∃ f, (f = .zero ∨ f = .any1) ∧ walk .minus i = some f) ∧
      ∀ {t f}, f.Accepting → Fractional f t → walk .minus (i ++ t) = some f := by
  rcases hi with rfl | ⟨d, ds, rfl, hzero, hdigits⟩
  · refine ⟨⟨.zero, .inl rfl, rfl⟩, fun {t f} hf ht => ?_⟩
    rw [List.singleton_append, walk_cons]
    refine ⟨.zero, rfl, ?_⟩
    cases t with
    | nil => exact absurd rfl ht.ne_nil
    | cons c t => exact (walk_zero_cons hf).mpr ht
  · rw [List.all_cons, Bool.and_eq_true] at hdigits
    have hstep : step .minus d = some .any1 := by rw [step_minus, if_neg hzero, if_pos hdigits.1]
    have hany : Accepting .any1 := .inr (.inl rfl)
    refine ⟨⟨.any1, .inr rfl, ?_⟩, fun {t f} hf ht => ?_⟩
    · exact walk_cons.mpr ⟨_, hstep, (walk_any1 hany).mpr
        ⟨ds, [], by simp, hdigits.2, .inl ⟨rfl, rfl⟩⟩⟩
    · exact walk_cons.mpr ⟨_, hstep, (walk_any1 hf).mpr ⟨ds, t, rfl, hdigits.2, .inr ht⟩⟩

end Walks

section Types
variable {q f : NumberState} {type : NumberType} {x : Bytes}

/-- The type of the number at its end. -/
def typeAfter : NumberState → NumberType → Bytes → NumberType
  | q, type, [] => q.type type
  | q, type, c :: cs => ((q.step c).elim type fun q' => typeAfter q' (q.type type) cs)

/-- After a decimal point or an exponent the number is a float. -/
def Typed (q : NumberState) (type : NumberType) : Prop :=
  q = .decimal2 ∨ q = .sign ∨ q = .any2 → type = .float

theorem Typed.step {q' : NumberState} {c : Fin 256} (h : Typed q type)
    (hq : q.step c = some q') : Typed q' (q.type type) := by
  unfold Typed at h ⊢
  cases q with
  | minus =>
    rw [step_minus] at hq
    split_ifs at hq <;> cases hq <;> simp
  | zero =>
    rw [step_zero] at hq
    split_ifs at hq <;> cases hq <;> simp
  | any1 =>
    rw [step_any1, step_zero] at hq
    split_ifs at hq <;> cases hq <;> simp
  | decimal1 | exponent => exact fun _ => rfl
  | decimal2 | sign | any2 => exact fun _ => h (by simp)

theorem typeAfter_float (ht : Typed q type) (h : walk q x = some f)
    (hf : f = .decimal2 ∨ f = .any2) : typeAfter q type x = .float := by
  induction x generalizing q type with
  | nil =>
    obtain rfl := Option.some.inj h
    rcases hf with rfl | rfl <;> exact ht (by simp)
  | cons c x ih =>
    obtain ⟨q', hq, hwalk⟩ := walk_cons.mp h
    simp only [typeAfter, hq, Option.elim_some]
    exact ih (ht.step hq) hwalk

/-- The labels of a number without fraction and exponent. -/
def Whole (q : NumberState) : Prop := q = .minus ∨ q = .zero ∨ q = .any1

theorem Whole.of_step {q' : NumberState} {c : Fin 256} (h : Whole q') (hq : q.step c = some q') :
    Whole q ∧ q' ≠ .minus := by
  cases q with
  | minus =>
    rw [step_minus] at hq
    split_ifs at hq <;> cases hq <;> simp [Whole]
  | zero | any1 =>
    refine ⟨by simp [Whole], ?_⟩
    rintro rfl
    simp only [step_any1, step_zero] at hq
    split_ifs at hq <;> cases hq
  | _ =>
    simp only [step_decimal1, step_decimal2, step_exponent, step_sign, step_any2] at hq
    split_ifs at hq <;> cases hq <;> simp [Whole] at h

theorem whole_of_walk (h : walk q x = some f) (hf : Whole f) : Whole q := by
  induction x generalizing q with
  | nil => exact (Option.some.inj h).symm ▸ hf
  | cons c x ih =>
    obtain ⟨q', hq, hwalk⟩ := walk_cons.mp h
    exact ((ih hwalk).of_step hq).1

theorem typeAfter_whole (h : walk q x = some f) (hf : Whole f) :
    typeAfter q type x = q.type type := by
  induction x generalizing q type with
  | nil => rfl
  | cons c x ih =>
    obtain ⟨q', hq, hwalk⟩ := walk_cons.mp h
    have hq' := whole_of_walk hwalk hf
    simp only [typeAfter, hq, Option.elim_some, ih hwalk]
    rcases hq' with rfl | rfl | rfl
    · exact absurd rfl (Whole.of_step (.inl rfl) hq).2
    · rfl
    · rfl

end Types
section Next
variable {q : NumberState} {c : Option (Fin 256)}

theorem step_of_next {q' : NumberState} (h : q.next c = .ok (some q')) :
    ∃ b, c = some b ∧ q.step b = some q' := by
  cases c with
  | none => cases q <;> simp [next] at h
  | some b => exact ⟨b, rfl, by rw [step, h]; rfl⟩

theorem accepting_of_next (h : q.next c = .ok none) : q.Accepting := by
  unfold Accepting
  cases q with
  | zero | any1 | decimal2 | any2 => simp
  | _ =>
    simp only [next] at h
    split_ifs at h <;> cases h

/-- No character that a number could go on with. -/
def Ends (c : Option (Fin 256)) : Prop :=
  c.any isDigit = false ∧ c ≠ some 0x2E ∧ c ≠ some 0x65 ∧ c ≠ some 0x45

theorem next_of_ends (h : Ends c) (hq : q.Accepting) : q.next c = .ok none := by
  obtain ⟨hdigit, hdot, he, hE⟩ := h
  rcases hq with rfl | rfl | rfl | rfl <;> simp [next, hdigit, hdot, he, hE]

theorem next_of_step {q' : NumberState} {b : Fin 256} (h : q.step b = some q') :
    q.next (some b) = .ok (some q') := by
  unfold step at h
  cases hn : q.next (some b) with
  | error m => rw [hn] at h; cases h
  | ok r =>
    rw [hn] at h
    exact congrArg Except.ok h

end Next
end NumberState

section Runs
open NumberState
variable {strtod : Strtod} {q f : NumberState} {type : NumberType} {l l' : Lexer}
  {rest r buf x t : Bytes} {c : Fin 256} {token : Token}

/-- The rest of a number is read up to the character that cannot belong to it. -/
theorem scanNumberLoop_complete (strtod : Strtod) (type : NumberType)
    (hwalk : walk q x = some f) (hf : f.Accepting)
    (hl : At l (x ++ r) buf) (hr : Ends r.head?) :
    ∃ l', (scanNumberLoop strtod).run ⟨q, type, l⟩ =
      (convert strtod (typeAfter q type x) (buf ++ x), l') ∧ At l' r (buf ++ x) := by
  induction x generalizing q type l buf with
  | nil =>
    obtain rfl := Option.some.inj hwalk
    have hcur : l.get.current = r.head? := by
      cases r with
      | nil => exact hl.nil.1
      | cons c r => exact hl.cons.1
    have hturn : scanNumberTurn strtod ⟨q, type, l⟩ =
        .inl (convert strtod (q.type type) buf, l.get.unget) := by
      simp only [scanNumberTurn, hcur, next_of_ends hr hf, Lexer.get_tokenBuffer, hl.buffer]
    refine ⟨_, ?_, by simpa using hl.unget⟩
    rw [List.append_nil]
    exact Loop.run_inl hturn
  | cons c x ih =>
    obtain ⟨q', hq, hwalk'⟩ := walk_cons.mp hwalk
    obtain ⟨hcur, hget⟩ := hl.cons
    have hturn : scanNumberTurn strtod ⟨q, type, l⟩ =
        .inr ⟨q', q.type type, l.get.addAll [c]⟩ := by
      simp only [scanNumberTurn, hcur, next_of_step hq]
      rfl
    obtain ⟨l', hrun, hl'⟩ := ih (q.type type) hwalk' (hget.addAll [c])
    refine ⟨l', ?_, by simpa using hl'⟩
    rw [Loop.run_inr (L := scanNumberLoop strtod) hturn, hrun, typeAfter, hq, List.append_assoc]
    rfl

theorem scanNumberLoop_sound
    (h : (scanNumberLoop strtod).run ⟨q, type, l⟩ = (token, l'))
    (htoken : ∀ m, token ≠ .parseError m) (hl : At l rest buf) :
    ∃ x f r, rest = x ++ r ∧ walk q x = some f ∧ f.Accepting ∧
      token = convert strtod (typeAfter q type x) (buf ++ x) ∧ At l' r (buf ++ x) := by
  induction hm : l.rest.length using Nat.strong_induction_on generalizing q type l rest buf with
  | _ m ih =>
    cases hturn : scanNumberTurn strtod ⟨q, type, l⟩ with
    | inl a =>
      obtain rfl := (Loop.run_inl (L := scanNumberLoop strtod) hturn).symm.trans h
      unfold scanNumberTurn at hturn
      dsimp only at hturn
      split at hturn
      · cases hturn
        exact absurd rfl (htoken _)
      · next hnext =>
        cases hturn
        refine ⟨[], q, rest, rfl, rfl, accepting_of_next hnext, ?_, by simpa using hl.unget⟩
        rw [Lexer.get_tokenBuffer, hl.buffer, List.append_nil]
        rfl
      · cases hturn
    | inr s =>
      rw [Loop.run_inr (L := scanNumberLoop strtod) hturn] at h
      have hfalls := scanNumberTurn_falls hturn
      unfold scanNumberTurn at hturn
      dsimp only at hturn
      split at hturn
      · cases hturn
      · cases hturn
      · next q' hnext =>
        cases hturn
        obtain ⟨b, hcur, hq⟩ := step_of_next hnext
        obtain ⟨r1, rfl, hget⟩ := hl.of_some hcur
        rw [hcur] at h hfalls
        obtain ⟨x, f, r, rfl, hwalk, hf, htok, hl'⟩ :=
          ih _ (hm ▸ hfalls) h (hget.addAll [b]) rfl
        refine ⟨b :: x, f, r, rfl, walk_cons.mpr ⟨q', hq, hwalk⟩, hf, ?_, by simpa using hl'⟩
        rw [htok, typeAfter, hq, List.append_assoc]
        rfl

end Runs

/-- The value of a token that is a value by itself. -/
def Token.toJson : Token → Option Json
  | .literalTrue => some (.boolean true)
  | .literalFalse => some (.boolean false)
  | .literalNull => some .null
  | .valueString s => some (.string s)
  | .valueUnsigned n => some (.numberUnsigned n)
  | .valueInteger n => some (.numberInteger n)
  | .valueFloat bits => some (.numberFloat bits)
  | _ => none

section Numerals
open NumberState
variable {strtod : Strtod} {f : NumberState} {l l' : Lexer} {rest r buf t u : Bytes}
  {c : Fin 256} {token : Token}

/-- The digits, the fraction and the exponent. -/
def unsignedText (x : Numeral) : Bytes := x.integer ++ x.fraction ++ x.exponent

def numeralType (x : Numeral) : NumberType :=
  if x.isFloat then .float else if x.negative then .integer else .unsigned

theorem text_eq (x : Numeral) :
    x.text = (if x.negative then [0x2D] else []) ++ unsignedText x := by
  simp only [Numeral.text, unsignedText, List.append_assoc]

def numeralToken (strtod : Strtod) (x : Numeral) : Token :=
  convert strtod (numeralType x) x.text

theorem toJson_numeralToken (strtod : Strtod) (x : Numeral) :
    (numeralToken strtod x).toJson = some (x.value strtod) := by
  unfold numeralToken numeralType Numeral.value
  cases hfloat : x.isFloat with
  | true => rfl
  | false =>
    have htext : x.text = (if x.negative then [0x2D] else []) ++ x.integer := by
      simp only [Numeral.isFloat, Bool.not_eq_false', Bool.and_eq_true,
        List.isEmpty_iff] at hfloat
      simp [Numeral.text, hfloat]
    cases hneg : x.negative with
    | true =>
      have htail : x.text.tail = x.integer := by simp [htext, hneg]
      simp only [Bool.false_eq_true, if_false, if_true, convert, htail]
      split_ifs <;> rfl
    | false =>
      have hint : x.text = x.integer := by simp [htext, hneg]
      simp only [Bool.false_eq_true, if_false, convert, hint]
      split_ifs <;> rfl

/-- A numeral leads to a label at which a number may end, one after a decimal point or an
exponent if the numeral is a float. -/
theorem walk_numeral (x : Numeral) : ∃ f : NumberState, f.Accepting ∧
    walk .minus (unsignedText x) = some f ∧
    (x.isFloat = true ∧ (f = .decimal2 ∨ f = .any2) ∨ x.isFloat = false ∧ Whole f) := by
  obtain ⟨hwhole, hfractional⟩ := walk_minus_complete x.isInteger
  rcases x.isExponent with he | he
  · rcases x.isFraction with hfr | hfr
    · obtain ⟨f, hf, hwalk⟩ := hwhole
      refine ⟨f, by unfold Accepting; tauto, ?_, .inr ⟨?_, .inr hf⟩⟩
      · simpa [unsignedText, he, hfr] using hwalk
      · simp [Numeral.isFloat, he, hfr]
    · refine ⟨.decimal2, by unfold Accepting; tauto, ?_, .inl ⟨?_, .inl rfl⟩⟩
      · rw [unsignedText, he, List.append_nil]
        exact hfractional (by unfold Accepting; tauto) (.inl ⟨rfl, hfr⟩)
      · obtain ⟨ds, hfr, -⟩ := hfr
        simp [Numeral.isFloat, hfr]
  · refine ⟨.any2, by unfold Accepting; tauto, ?_, .inl ⟨?_, .inr rfl⟩⟩
    · rw [unsignedText, List.append_assoc]
      exact hfractional (by unfold Accepting; tauto) (.inr ⟨rfl, _, _, rfl, x.isFraction, he⟩)
    · obtain ⟨e, sign, ds, he, -⟩ := he
      simp [Numeral.isFloat, he]

theorem exists_numeral (negative : Bool) (hf : f.Accepting) (h : walk .minus u = some f) :
    ∃ x : Numeral, x.negative = negative ∧ unsignedText x = u ∧
      (x.isFloat = true ∧ (f = .decimal2 ∨ f = .any2) ∨ x.isFloat = false ∧ Whole f) := by
  obtain ⟨i, t, rfl, hi, ⟨rfl, hwhole⟩ | ⟨rfl, hfr⟩ | ⟨rfl, fr, e, rfl, hfr, he⟩⟩ :=
    walk_minus_sound hf h
  · exact ⟨⟨negative, i, [], [], hi, .inl rfl, .inl rfl⟩, rfl, by simp [unsignedText],
      .inr ⟨rfl, .inr hwhole⟩⟩
  · refine ⟨⟨negative, i, t, [], hi, .inr hfr, .inl rfl⟩, rfl, by simp [unsignedText],
      .inl ⟨?_, .inl rfl⟩⟩
    obtain ⟨ds, rfl, -⟩ := hfr
    rfl
  · refine ⟨⟨negative, i, fr, e, hi, hfr, .inr he⟩, rfl, by simp [unsignedText],
      .inl ⟨?_, .inr rfl⟩⟩
    obtain ⟨b, sign, ds, rfl, -⟩ := he
    simp [Numeral.isFloat]

/-- The label that the first character leads to. -/
def startState (c : Fin 256) : NumberState :=
  if c = 0x2D then .minus else if c = 0x30 then .zero else .any1

/-- Without a sign a numeral starts with a digit. -/
theorem unsignedText_head {x : Numeral} (h : unsignedText x = c :: t) : isDigit c = true := by
  rcases x.isInteger with hi | ⟨d, ds, hi, -, hdigits⟩
  · rw [unsignedText, hi] at h
    obtain ⟨rfl, -⟩ := List.cons.inj h
    rfl
  · rw [unsignedText, hi] at h
    obtain ⟨rfl, -⟩ := List.cons.inj h
    rw [hi, List.all_cons, Bool.and_eq_true] at hdigits
    exact hdigits.1

theorem negative_iff {x : Numeral} (hx : x.text = c :: t) : x.negative = true ↔ c = 0x2D := by
  rw [text_eq] at hx
  cases hneg : x.negative with
  | true =>
    rw [hneg] at hx
    simp [(List.cons.inj hx).1.symm]
  | false =>
    rw [hneg] at hx
    have hdigit := unsignedText_head hx
    simp only [Bool.false_eq_true, false_iff]
    rintro rfl
    cases hdigit

/-- The type found at the end is that of the numeral. -/
theorem typeAfter_numeral {x : Numeral} (hx : x.text = c :: t)
    (hwalk : walk (startState c) t = some f)
    (hf : x.isFloat = true ∧ (f = .decimal2 ∨ f = .any2) ∨ x.isFloat = false ∧ Whole f) :
    typeAfter (startState c) .unsigned t = numeralType x := by
  have htyped : Typed (startState c) .unsigned := by
    unfold startState Typed
    split_ifs <;> simp
  rcases hf with ⟨hfloat, hf⟩ | ⟨hfloat, hf⟩
  · rw [typeAfter_float htyped hwalk hf, numeralType, if_pos hfloat]
  · rw [typeAfter_whole hwalk hf, numeralType, if_neg (by simp [hfloat]), startState]
    simp only [negative_iff hx]
    split_ifs <;> rfl

theorem walk_startState (hc : c ≠ 0x2D) (h : walk .minus (c :: t) = some f) :
    walk (startState c) t = some f := by
  obtain ⟨q, hq, hwalk⟩ := walk_cons.mp h
  rw [step_minus] at hq
  unfold startState
  rw [if_neg hc]
  split_ifs at hq ⊢ <;> cases hq <;> exact hwalk

theorem walk_of_startState (hc : c ≠ 0x2D) (hdigit : isDigit c = true)
    (h : walk (startState c) t = some f) : walk .minus (c :: t) = some f := by
  unfold startState at h
  rw [if_neg hc] at h
  refine walk_cons.mpr ⟨_, ?_, h⟩
  rw [step_minus, if_pos hdigit]
  split_ifs <;> rfl

/-- What follows the first character of a numeral leads on from its label. -/
theorem walk_text {x : Numeral} (hx : x.text = c :: t) :
    walk .minus (unsignedText x) = some f ↔ walk (startState c) t = some f := by
  have hneg := negative_iff hx
  rw [text_eq] at hx
  by_cases hc : c = 0x2D
  · rw [hneg.mpr hc] at hx
    obtain ⟨-, rfl⟩ := List.cons.inj hx
    rw [startState, if_pos hc]
    rfl
  · rw [Bool.eq_false_iff.mpr (mt hneg.mp hc)] at hx
    have hu : unsignedText x = c :: t := hx
    rw [hu]
    exact ⟨walk_startState hc, walk_of_startState hc (unsignedText_head hu)⟩

theorem scanNumber_complete {x : Numeral} (hx : x.text = c :: t) (hl : At l (t ++ r) buf)
    (hr : Ends r.head?) : ∃ l', scanNumber strtod c l = (numeralToken strtod x, l') ∧
      At l' r x.text := by
  obtain ⟨f, hf, hwalk, htype⟩ := walk_numeral x
  rw [walk_text hx] at hwalk
  obtain ⟨l', hrun, hl'⟩ := scanNumberLoop_complete strtod .unsigned
    hwalk hf (hl.reset.add c) hr
  refine ⟨l', hrun.trans ?_, by rw [hx]; exact hl'⟩
  rw [typeAfter_numeral hx hwalk htype, numeralToken, hx]
  rfl

theorem scanNumber_sound (h : scanNumber strtod c l = (token, l'))
    (htoken : ∀ m, token ≠ .parseError m) (hc : c = 0x2D ∨ isDigit c = true)
    (hl : At l rest buf) : ∃ (x : Numeral) (t r : Bytes), rest = t ++ r ∧ x.text = c :: t ∧
      token = numeralToken strtod x ∧ At l' r x.text := by
  obtain ⟨t, f, r, rfl, hwalk, hf, htok, hl'⟩ :=
    scanNumberLoop_sound h htoken (hl.reset.add c)
  change walk (startState c) t = some f at hwalk
  obtain ⟨x, hx, htype⟩ : ∃ x : Numeral, x.text = c :: t ∧
      (x.isFloat = true ∧ (f = .decimal2 ∨ f = .any2) ∨ x.isFloat = false ∧ Whole f) := by
    by_cases hsign : c = 0x2D
    · rw [startState, if_pos hsign] at hwalk
      obtain ⟨x, hneg, hu, htype⟩ := exists_numeral true hf hwalk
      exact ⟨x, by rw [text_eq, hneg, hu, hsign]; rfl, htype⟩
    · have hdigit := hc.resolve_left hsign
      obtain ⟨x, hneg, hu, htype⟩ :=
        exists_numeral false hf (walk_of_startState hsign hdigit hwalk)
      exact ⟨x, by rw [text_eq, hneg, hu]; rfl, htype⟩
  refine ⟨x, t, r, rfl, hx, htok.trans ?_, by rw [hx]; exact hl'⟩
  rw [numeralToken, hx, ← typeAfter_numeral hx hwalk htype]
  rfl

end Numerals
end Rockets.Lexing
