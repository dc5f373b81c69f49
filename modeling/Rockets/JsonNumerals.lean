import Rockets.JsonNumbers
import Rockets.JsonSerializer

set_option autoImplicit false

/-!
# Numbers as the serializer writes them

Integers are written digit by digit into a buffer of 64 characters. The shortest digits of a
float are computed by `grisu2`, which is a parameter; the layout of the digits is not.
-/
namespace Rockets.Serializer
open Http (isDigit numeral)
open Grammar

def digit (n : ℕ) : Fin 256 := Fin.ofNat 256 (0x30 + n)

section Integers

/-- The digits from the last one on. -/
def integerTurn (s : ℤ × Bytes) : Except Fault Bytes ⊕ ℤ × Bytes :=
  if s.1 = 0 then .inl (.ok s.2)
  else if s.2.length < 63 then
    .inr (s.1.tdiv 10, s.2 ++ [digit (s.1.tmod 10).natAbs])
  else .inl (.error .outOfBounds)

theorem integerTurn_falls {s s' : ℤ × Bytes} (h : integerTurn s = .inr s') :
    s'.1.natAbs < s.1.natAbs := by
  unfold integerTurn at h
  split_ifs at h with h0
  cases h
  rw [Int.natAbs_tdiv]
  exact Nat.div_lt_self (by omega) (by decide)

def integerLoop : Loop (ℤ × Bytes) (Except Fault Bytes) where
  turn := integerTurn
  measure s := s.1.natAbs
  falls := integerTurn_falls

/-- For signed and for unsigned numbers. -/
def dumpInteger (x : ℤ) (out : Bytes) : Except Fault Bytes :=
  if x = 0 then .ok (out ++ [0x30])
  else match integerLoop.run (x, []) with
    | .error f => .error f
    | .ok buffer =>
      if x < 0 then
        if buffer.length < 62 then .ok (out ++ (buffer ++ [0x2D]).reverse)
        else .error .outOfBounds
      else .ok (out ++ buffer.reverse)

theorem digit_isDigit {n : ℕ} (h : n < 10) : isDigit (digit n) = true := by
  revert n
  decide

theorem decimal_of_lt {n : ℕ} (h : n < 10) : decimal n = [digit n] := by
  unfold decimal
  rw [Nat.toDigits_of_lt_base h]
  revert n
  decide

theorem decimal_of_le {n : ℕ} (h : 10 ≤ n) : decimal n = decimal (n / 10) ++ [digit (n % 10)] := by
  rw [← decimal_of_lt (Nat.mod_lt n (by decide))]
  unfold decimal
  rw [Nat.toDigits_of_base_le (by decide) h, Nat.toDigits_of_lt_base (Nat.mod_lt n (by decide)),
    List.map_append]

theorem decimal_length_le {n k : ℕ} (hk : 0 < k) (h : n < 10 ^ k) : (decimal n).length ≤ k := by
  rw [decimal, List.length_map]
  exact (Nat.length_toDigits_le_iff (by decide) hk).mpr h

/-- The digits of a number, none for zero. -/
def digits (n : ℕ) : Bytes := if n = 0 then [] else decimal n

theorem digits_of_pos {n : ℕ} (h : n ≠ 0) : digits n = digits (n / 10) ++ [digit (n % 10)] := by
  unfold digits
  rw [if_neg h]
  by_cases hlt : n < 10
  · rw [if_pos (Nat.div_eq_of_lt hlt), decimal_of_lt hlt, Nat.mod_eq_of_lt hlt, List.nil_append]
  · rw [if_neg (by omega), decimal_of_le (not_lt.mp hlt)]

theorem integerLoop_run {x : ℤ} {buffer : Bytes}
    (h : buffer.length + (digits x.natAbs).length ≤ 63) :
    integerLoop.run (x, buffer) = .ok (buffer ++ (digits x.natAbs).reverse) := by
  induction hn : x.natAbs using Nat.strong_induction_on generalizing x buffer with
  | _ n ih =>
    by_cases h0 : x = 0
    · subst h0
      obtain rfl : 0 = n := hn
      have hturn : integerTurn (0, buffer) = .inl (.ok buffer) := if_pos rfl
      rw [Loop.run_inl (L := integerLoop) (s := (0, buffer)) hturn]
      simp [digits]
    · subst hn
      have hpos : x.natAbs ≠ 0 := by omega
      rw [digits_of_pos hpos, List.length_append, List.length_singleton] at h
      have hturn : integerTurn (x, buffer) =
          .inr (x.tdiv 10, buffer ++ [digit (x.tmod 10).natAbs]) := by
        rw [integerTurn, if_neg h0, if_pos (by simp only; omega)]
      have hdiv : (x.tdiv 10).natAbs = x.natAbs / 10 := Int.natAbs_tdiv x 10
      have hmod : (x.tmod 10).natAbs = x.natAbs % 10 := Int.natAbs_tmod x 10
      rw [Loop.run_inr (L := integerLoop) hturn,
        ih _ (Nat.div_lt_self (by omega) (by decide)) (by
          rw [hdiv, List.length_append, List.length_singleton]
          omega) hdiv, hmod, digits_of_pos hpos, List.reverse_append, List.append_assoc]
      rfl

variable {n : ℕ} {x : ℤ} {out : Bytes}

/-- The digits after the sign. -/
def signed (x : ℤ) : Bytes := (if x < 0 then [0x2D] else []) ++ decimal x.natAbs

theorem dumpInteger_eq (h : x.natAbs < 2 ^ 64) : dumpInteger x out = .ok (out ++ signed x) := by
  unfold dumpInteger signed
  by_cases h0 : x = 0
  · subst h0
    rfl
  · have hdigits : digits x.natAbs = decimal x.natAbs := if_neg (by omega)
    have hlen : (decimal x.natAbs).length ≤ 20 := decimal_length_le (by decide) (by omega)
    rw [if_neg h0, integerLoop_run (by rw [hdigits, List.length_nil]; omega), hdigits]
    simp only [List.nil_append, List.length_reverse]
    split_ifs with hneg hroom
    · rw [List.reverse_append, List.reverse_reverse, List.reverse_singleton]
    · omega
    · rw [List.reverse_reverse, List.nil_append]

theorem decimal_all (n : ℕ) : (decimal n).all isDigit = true := by
  induction n using Nat.strong_induction_on with
  | _ n ih =>
    by_cases h : n < 10
    · rw [decimal_of_lt h, List.all_cons, digit_isDigit h]
      rfl
    · rw [decimal_of_le (by omega), List.all_append, ih (n / 10) (by omega), List.all_cons,
        digit_isDigit (Nat.mod_lt n (by decide))]
      rfl

theorem digit_ne_zero (h : n < 10) (h0 : n ≠ 0) : digit n ≠ 0x30 := by
  revert n
  decide

theorem decimal_cons (h : n ≠ 0) : ∃ d ds, decimal n = d :: ds ∧ d ≠ 0x30 := by
  induction n using Nat.strong_induction_on with
  | _ n ih =>
    by_cases hlt : n < 10
    · exact ⟨digit n, [], decimal_of_lt hlt, digit_ne_zero hlt h⟩
    · obtain ⟨d, ds, hd, hne⟩ := ih (n / 10) (by omega) (by omega)
      exact ⟨d, ds ++ [digit (n % 10)], by rw [decimal_of_le (by omega), hd]; rfl, hne⟩

theorem decimal_isInteger (n : ℕ) : IsInteger (decimal n) := by
  by_cases h : n = 0
  · exact .inl (h ▸ rfl)
  · obtain ⟨d, ds, hd, hne⟩ := decimal_cons h
    exact .inr ⟨d, ds, hd, hne, decimal_all n⟩

theorem digit_val (h : n < 10) : (digit n).val - 48 = n := by
  revert n
  decide

theorem numeral_decimal (n : ℕ) : numeral (decimal n) = n := by
  induction n using Nat.strong_induction_on with
  | _ n ih =>
    by_cases h : n < 10
    · rw [decimal_of_lt h]
      exact (Nat.zero_add _).trans (digit_val h)
    · rw [decimal_of_le (by omega), numeral, List.foldl_append]
      change 10 * numeral (decimal (n / 10)) + ((digit (n % 10)).val - 48) = n
      rw [ih (n / 10) (by omega), digit_val (Nat.mod_lt n (by decide))]
      omega

/-- What an integer becomes when it is read again. -/
theorem scalar_signed {strtod : Strtod} (hlo : -2 ^ 63 ≤ x) (hhi : x < 2 ^ 64) :
    Scalar strtod (signed x) (if 0 ≤ x then .numberUnsigned x.toNat else .numberInteger x) := by
  let y : Numeral := ⟨x < 0, decimal x.natAbs, [], [], decimal_isInteger _, .inl rfl, .inl rfl⟩
  have htext : y.text = signed x := by
    simp [y, Numeral.text, signed]
  have hvalue : y.value strtod =
      if 0 ≤ x then .numberUnsigned x.toNat else .numberInteger x := by
    have hfloat : y.isFloat = false := rfl
    have hnumeral : numeral y.integer = x.natAbs := numeral_decimal _
    rw [Numeral.value, hfloat, hnumeral]
    by_cases h0 : 0 ≤ x
    · have hneg : y.negative = false := decide_eq_false (by omega)
      rw [hneg, if_pos h0]
      simp only [Bool.false_eq_true, if_false]
      rw [if_pos (by omega)]
      congr 1
      omega
    · have hneg : y.negative = true := decide_eq_true (by omega)
      rw [hneg, if_neg h0]
      simp only [Bool.false_eq_true, if_false, if_true]
      rw [if_pos (by omega)]
      congr 1
      omega
  rw [← htext, ← hvalue]
  refine .number y fun bits hbits => ?_
  rw [hvalue] at hbits
  split_ifs at hbits

end Integers

section Floats

/-- At least two digits, as `printf` has them. -/
def exponentDigits (k : ℕ) : Bytes :=
  if k < 10 then [0x30, digit k]
  else if k < 100 then [digit (k / 10), digit (k % 10)]
  else [digit (k / 100), digit (k % 100 / 10), digit (k % 100 % 10)]

def appendExponent (e : ℤ) : Bytes :=
  (if e < 0 then 0x2D else 0x2B) :: exponentDigits e.natAbs

/-- The number `buf * 10 ^ decimalExponent` in fixed-point or exponential notation. -/
def formatBuffer (buf : Bytes) (decimalExponent minExp maxExp : ℤ) : Bytes :=
  let k : ℤ := buf.length
  let n := k + decimalExponent
  if k ≤ n ∧ n ≤ maxExp then buf ++ List.replicate (n - k).toNat 0x30 ++ [0x2E, 0x30]
  else if 0 < n ∧ n ≤ maxExp then buf.take n.toNat ++ 0x2E :: buf.drop n.toNat
  else if minExp < n ∧ n ≤ 0 then [0x30, 0x2E] ++ List.replicate (-n).toNat 0x30 ++ buf
  else (if k = 1 then buf else buf.take 1 ++ 0x2E :: buf.drop 1) ++ 0x65 :: appendExponent (n - 1)

/-- A finite double by its bits; `grisu2` gives the digits and the exponent of a positive one. -/
def toChars (grisu2 : ℕ → Bytes × ℤ) (bits : ℕ) : Bytes :=
  let value := bits % 2 ^ 63
  (if bits / 2 ^ 63 % 2 = 1 then [0x2D] else []) ++
    if value = 0 then [0x30, 0x2E, 0x30]
    else formatBuffer (grisu2 value).1 (grisu2 value).2 (-4) 15

def dumpFloat (grisu2 : ℕ → Bytes × ℤ) (bits : ℕ) (out : Bytes) : Bytes :=
  if isFinite bits then out ++ toChars grisu2 bits else out ++ ascii "null"

/-- What `grisu2` makes of a double: up to 17 digits without a leading zero. -/
structure Shortest (d : Bytes × ℤ) : Prop where
  isDigits : d.1.all isDigit = true
  head : ∃ c ds, d.1 = c :: ds ∧ c ≠ 0x30
  length : d.1.length ≤ 17
  exponent : -1000 < d.1.length + d.2 - 1 ∧ d.1.length + d.2 - 1 < 1000

variable {buf : Bytes} {e : ℤ} {n : ℕ}

theorem exponentDigits_spec (h : n < 1000) :
    exponentDigits n ≠ [] ∧ (exponentDigits n).all isDigit = true := by
  unfold exponentDigits
  split_ifs with h1 h2
  · simp [digit_isDigit h1, show isDigit 0x30 = true from rfl]
  · simp [digit_isDigit (show n / 10 < 10 by omega), digit_isDigit (show n % 10 < 10 by omega)]
  · simp [digit_isDigit (show n / 100 < 10 by omega), digit_isDigit (show n % 10 < 10 by omega),
      digit_isDigit (show n % 100 / 10 < 10 by omega)]

theorem isExponent_append (h : -1000 < e ∧ e < 1000) : IsExponent (0x65 :: appendExponent e) := by
  obtain ⟨hne, hall⟩ := exponentDigits_spec (n := e.natAbs) (by omega)
  refine ⟨0x65, [if e < 0 then 0x2D else 0x2B], exponentDigits e.natAbs, rfl, .inl rfl, ?_, hne,
    hall⟩
  unfold IsSign
  split_ifs <;> simp

theorem isInteger_of_head (hall : buf.all isDigit = true)
    (hhead : ∃ c ds, buf = c :: ds ∧ c ≠ 0x30) : IsInteger buf := by
  obtain ⟨c, ds, hbuf, hc⟩ := hhead
  exact .inr ⟨c, ds, hbuf, hc, hall⟩

theorem all_replicate (n : ℕ) : (List.replicate n (0x30 : Fin 256)).all isDigit = true := by
  rw [List.all_replicate]
  simp [isDigit]

/-- Of every layout the parts are those of a float in a JSON text. -/
theorem formatBuffer_parts {minExp maxExp : ℤ} (h : Shortest (buf, e)) :
    ∃ i f x, formatBuffer buf e minExp maxExp = i ++ f ++ x ∧ IsInteger i ∧
      (f = [] ∨ IsFraction f) ∧ (x = [] ∨ IsExponent x) ∧ (f.isEmpty && x.isEmpty) = false := by
  obtain ⟨hall, ⟨c, ds, rfl, hc⟩, -, hexp⟩ := h
  have hint : IsInteger (c :: ds) := .inr ⟨c, ds, rfl, hc, hall⟩
  have hall' := hall
  rw [List.all_cons, Bool.and_eq_true] at hall'
  unfold formatBuffer
  dsimp only at hall hexp ⊢
  generalize hk : ((c :: ds).length : ℤ) = k at hexp ⊢
  split_ifs with h1 h2 h3 h4
  · refine ⟨c :: ds ++ List.replicate (k + e - k).toNat 0x30, [0x2E, 0x30], [],
      (List.append_nil _).symm, ?_, .inr ⟨[0x30], rfl, by simp, by simp [isDigit]⟩, .inl rfl, rfl⟩
    exact isInteger_of_head (by rw [List.all_append, hall, all_replicate]; rfl)
      ⟨c, _, rfl, hc⟩
  · obtain ⟨m, hm⟩ : ∃ m, (k + e).toNat = m + 1 := Nat.exists_eq_succ_of_ne_zero (by omega)
    have hlt : m < ds.length := by
      rw [List.length_cons] at hk
      omega
    rw [hm, List.take_succ_cons, List.drop_succ_cons]
    refine ⟨c :: ds.take m, 0x2E :: ds.drop m, [], (List.append_nil _).symm, ?_,
      .inr ⟨ds.drop m, rfl, ?_, ?_⟩, .inl rfl, rfl⟩
    · refine .inr ⟨c, _, rfl, hc, ?_⟩
      rw [List.all_cons, hall'.1, Bool.true_and, List.all_eq_true]
      exact fun b hb => List.all_eq_true.mp hall'.2 b (List.mem_of_mem_take hb)
    · rw [ne_eq, List.drop_eq_nil_iff]
      omega
    · rw [List.all_eq_true]
      exact fun b hb => List.all_eq_true.mp hall'.2 b (List.mem_of_mem_drop hb)
  · refine ⟨[0x30], 0x2E :: (List.replicate (-(k + e)).toNat 0x30 ++ c :: ds), [], by simp,
      .inl rfl, .inr ⟨_, rfl, by simp, ?_⟩, .inl rfl, rfl⟩
    rw [List.all_append, all_replicate, hall]
    rfl
  · exact ⟨c :: ds, [], _, by simp, hint, .inl rfl, .inr (isExponent_append hexp), rfl⟩
  · refine ⟨[c], 0x2E :: ds, _, by simp, ?_, .inr ⟨ds, rfl, ?_, hall'.2⟩,
      .inr (isExponent_append hexp), rfl⟩
    · exact isInteger_of_head (by rw [List.all_cons, hall'.1]; rfl) ⟨c, [], rfl, hc⟩
    · rintro rfl
      exact h4 hk.symm

/-- The text of a double fits the number buffer. -/
theorem formatBuffer_length (h : Shortest (buf, e)) :
    (formatBuffer buf e (-4) 15).length ≤ 24 := by
  obtain ⟨-, ⟨c, ds, hbuf, -⟩, hlen, hexp⟩ := h
  have hdigits : ∀ k, (exponentDigits k).length ≤ 3 := by
    intro k
    unfold exponentDigits
    split_ifs <;> simp
  have happend : ∀ e, (appendExponent e).length ≤ 4 := by
    intro e
    rw [appendExponent, List.length_cons]
    exact Nat.succ_le_succ (hdigits _)
  dsimp only at hlen hexp
  unfold formatBuffer
  dsimp only
  split_ifs
  · simp only [List.length_append, List.length_replicate, List.length_cons, List.length_nil]
    omega
  · simp only [List.length_append, List.length_cons, List.length_take, List.length_drop]
    omega
  · simp only [List.length_append, List.length_replicate, List.length_cons, List.length_nil]
    omega
  · have hle := happend (buf.length + e - 1)
    simp only [List.length_append, List.length_cons]
    omega
  · have hle := happend (buf.length + e - 1)
    simp only [List.length_append, List.length_cons, List.length_take, List.length_drop]
    omega

variable {grisu2 : ℕ → Bytes × ℤ} {strtod : Strtod} {bits : ℕ} {out : Bytes}

/-- A finite double is written as a float. -/
theorem toChars_numeral (h : bits % 2 ^ 63 ≠ 0 → Shortest (grisu2 (bits % 2 ^ 63))) :
    ∃ x : Numeral, x.text = toChars grisu2 bits ∧ x.isFloat = true := by
  have hparts : ∃ i f x, (if bits % 2 ^ 63 = 0 then [0x30, 0x2E, 0x30] else
      formatBuffer (grisu2 (bits % 2 ^ 63)).1 (grisu2 (bits % 2 ^ 63)).2 (-4) 15) = i ++ f ++ x ∧
      IsInteger i ∧ (f = [] ∨ IsFraction f) ∧ (x = [] ∨ IsExponent x) ∧
      (f.isEmpty && x.isEmpty) = false := by
    split_ifs with h0
    · exact ⟨[0x30], [0x2E, 0x30], [], rfl, .inl rfl,
        .inr ⟨[0x30], rfl, by simp, by simp [isDigit]⟩, .inl rfl, rfl⟩
    · exact formatBuffer_parts (h h0)
  obtain ⟨i, f, x, heq, hi, hf, hx, hfloat⟩ := hparts
  refine ⟨⟨bits / 2 ^ 63 % 2 = 1, i, f, x, hi, hf, hx⟩, ?_, ?_⟩
  · simp only [Numeral.text, toChars, heq, decide_eq_true_eq, List.append_assoc]
  · rw [Numeral.isFloat, hfloat]
    rfl

/-- The conversions undo each other at a double. -/
structure ReadsBack (grisu2 : ℕ → Bytes × ℤ) (strtod : Strtod) (bits : ℕ) : Prop where
  shortest : bits % 2 ^ 63 ≠ 0 → Shortest (grisu2 (bits % 2 ^ 63))
  strtod : strtod (toChars grisu2 bits) = bits

theorem toChars_length (h : ReadsBack grisu2 strtod bits) : (toChars grisu2 bits).length ≤ 25 := by
  have hsign : (if bits / 2 ^ 63 % 2 = 1 then [(0x2D : Fin 256)] else []).length ≤ 1 := by
    split_ifs <;> simp
  rw [toChars, List.length_append]
  split_ifs with h1 h0 h0
  · simp
  · have hle := formatBuffer_length (h.shortest h0)
    simp only [List.length_singleton]
    omega
  · simp
  · have hle := formatBuffer_length (h.shortest h0)
    simp only [List.length_nil]
    omega

theorem scalar_toChars (h : ReadsBack grisu2 strtod bits) (hfinite : isFinite bits = true) :
    Scalar strtod (toChars grisu2 bits) (.numberFloat bits) := by
  obtain ⟨x, htext, hfloat⟩ := toChars_numeral h.shortest
  have hvalue : x.value strtod = .numberFloat bits := by
    rw [Numeral.value, if_pos hfloat, htext, h.strtod]
  rw [← htext, ← hvalue]
  refine .number x fun b hb => ?_
  rw [hvalue] at hb
  cases hb
  exact hfinite

end Floats
end Rockets.Serializer
