import Rockets.Json
import Rockets.Utf8

set_option autoImplicit false

/-!
# The decoder of the JSON serializer

The table-driven automaton with which `dump` checks and decodes strings, and the texts that
it accepts.
-/
namespace Rockets

namespace Serializer

def utf8Accept : ℕ := 0
def utf8Reject : ℕ := 1

/-- The type of each byte, then for each state its successor by the type of the byte. -/
def utf8d : List ℕ := [
    0, 0, 0, 0, 0, 0, 0, 0, 0, 0, 0, 0, 0, 0, 0, 0, 0, 0, 0, 0, 0, 0, 0, 0, 0, 0, 0, 0, 0, 0, 0, 0,
    0, 0, 0, 0, 0, 0, 0, 0, 0, 0, 0, 0, 0, 0, 0, 0, 0, 0, 0, 0, 0, 0, 0, 0, 0, 0, 0, 0, 0, 0, 0, 0,
    0, 0, 0, 0, 0, 0, 0, 0, 0, 0, 0, 0, 0, 0, 0, 0, 0, 0, 0, 0, 0, 0, 0, 0, 0, 0, 0, 0, 0, 0, 0, 0,
    0, 0, 0, 0, 0, 0, 0, 0, 0, 0, 0, 0, 0, 0, 0, 0, 0, 0, 0, 0, 0, 0, 0, 0, 0, 0, 0, 0, 0, 0, 0, 0,
    1, 1, 1, 1, 1, 1, 1, 1, 1, 1, 1, 1, 1, 1, 1, 1, 9, 9, 9, 9, 9, 9, 9, 9, 9, 9, 9, 9, 9, 9, 9, 9,
    7, 7, 7, 7, 7, 7, 7, 7, 7, 7, 7, 7, 7, 7, 7, 7, 7, 7, 7, 7, 7, 7, 7, 7, 7, 7, 7, 7, 7, 7, 7, 7,
    8, 8, 2, 2, 2, 2, 2, 2, 2, 2, 2, 2, 2, 2, 2, 2, 2, 2, 2, 2, 2, 2, 2, 2, 2, 2, 2, 2, 2, 2, 2, 2,
    10, 3, 3, 3, 3, 3, 3, 3, 3, 3, 3, 3, 3, 4, 3, 3,
    11, 6, 6, 6, 5, 8, 8, 8, 8, 8, 8, 8, 8, 8, 8, 8,
    0, 1, 2, 3, 5, 8, 7, 1, 1, 1, 4, 6, 1, 1, 1, 1,
    1, 1, 1, 1, 1, 1, 1, 1, 1, 1, 1, 1, 1, 1, 1, 1, 1, 0, 1, 1, 1, 1, 1, 0, 1, 0, 1, 1, 1, 1, 1, 1,
    1, 2, 1, 1, 1, 1, 1, 2, 1, 2, 1, 1, 1, 1, 1, 1, 1, 1, 1, 1, 1, 1, 1, 2, 1, 1, 1, 1, 1, 1, 1, 1,
    1, 2, 1, 1, 1, 1, 1, 1, 1, 2, 1, 1, 1, 1, 1, 1, 1, 1, 1, 1, 1, 1, 1, 3, 1, 3, 1, 1, 1, 1, 1, 1,
    1, 3, 1, 1, 1, 1, 1, 3, 1, 3, 1, 1, 1, 1, 1, 1, 1, 3, 1, 1, 1, 1, 1, 1, 1, 1, 1, 1, 1, 1, 1, 1]

def byteType (byte : Fin 256) : ℕ := utf8d.getD byte.val 0

def successor (state : ℕ) (byte : Fin 256) : ℕ :=
  utf8d.getD (256 + state * 16 + byteType byte) 0

/-- One byte: the new state and the bits of the code point so far, a `uint32_t`. -/
def decode (byte : Fin 256) (state codep : ℕ) : ℕ × ℕ :=
  (successor state byte,
    if state ≠ utf8Accept then (byte.val &&& 0x3F) ||| (codep <<< 6) % 2 ^ 32
    else (0xFF >>> byteType byte) &&& byte.val)

/-- The code points that the decoder finds from a state on, if it ends on a whole one. -/
def codePoints (state codep : ℕ) : Bytes → Option (List ℕ)
  | [] => if state = utf8Accept then some [] else none
  | byte :: s =>
    let (state, codep) := decode byte state codep
    if state = utf8Accept then (codePoints state codep s).map (codep :: ·)
    else if state = utf8Reject then none
    else codePoints state codep s

section Table

/-- The continuation bytes have three types. -/
theorem byteType_spec (b : Fin 256) : byteType b < 12 ∧
    (byteType b = 1 ↔ 0x80 ≤ b.val ∧ b.val ≤ 0x8F) ∧
    (byteType b = 9 ↔ 0x90 ≤ b.val ∧ b.val ≤ 0x9F) ∧
    (byteType b = 7 ↔ 0xA0 ≤ b.val ∧ b.val ≤ 0xBF) := by
  revert b
  decide +kernel

theorem successor_two (b : Fin 256) :
    successor 2 b = if 0x80 ≤ b.val ∧ b.val ≤ 0xBF then utf8Accept else utf8Reject := by
  have hrow : ∀ t < 12, utf8d.getD (256 + 2 * 16 + t) 0 =
      if t = 1 ∨ t = 7 ∨ t = 9 then utf8Accept else utf8Reject := by decide
  have hb := byteType_spec b
  rw [successor, hrow _ hb.1]
  exact if_congr (by omega) rfl rfl

theorem successor_three (b : Fin 256) :
    successor 3 b = if 0x80 ≤ b.val ∧ b.val ≤ 0xBF then 2 else utf8Reject := by
  have hrow : ∀ t < 12, utf8d.getD (256 + 3 * 16 + t) 0 =
      if t = 1 ∨ t = 7 ∨ t = 9 then 2 else utf8Reject := by decide
  have hb := byteType_spec b
  rw [successor, hrow _ hb.1]
  exact if_congr (by omega) rfl rfl

theorem successor_E0 (b : Fin 256) :
    successor 4 b = if 0xA0 ≤ b.val ∧ b.val ≤ 0xBF then 2 else utf8Reject := by
  have hrow : ∀ t < 12, utf8d.getD (256 + 4 * 16 + t) 0 =
      if t = 7 then 2 else utf8Reject := by decide
  have hb := byteType_spec b
  rw [successor, hrow _ hb.1]
  exact if_congr (by omega) rfl rfl

theorem successor_ED (b : Fin 256) :
    successor 5 b = if 0x80 ≤ b.val ∧ b.val ≤ 0x9F then 2 else utf8Reject := by
  have hrow : ∀ t < 12, utf8d.getD (256 + 5 * 16 + t) 0 =
      if t = 1 ∨ t = 9 then 2 else utf8Reject := by decide
  have hb := byteType_spec b
  rw [successor, hrow _ hb.1]
  exact if_congr (by omega) rfl rfl

theorem successor_F0 (b : Fin 256) :
    successor 6 b = if 0x90 ≤ b.val ∧ b.val ≤ 0xBF then 3 else utf8Reject := by
  have hrow : ∀ t < 12, utf8d.getD (256 + 6 * 16 + t) 0 =
      if t = 7 ∨ t = 9 then 3 else utf8Reject := by decide
  have hb := byteType_spec b
  rw [successor, hrow _ hb.1]
  exact if_congr (by omega) rfl rfl

theorem successor_four (b : Fin 256) :
    successor 7 b = if 0x80 ≤ b.val ∧ b.val ≤ 0xBF then 3 else utf8Reject := by
  have hrow : ∀ t < 12, utf8d.getD (256 + 7 * 16 + t) 0 =
      if t = 1 ∨ t = 7 ∨ t = 9 then 3 else utf8Reject := by decide
  have hb := byteType_spec b
  rw [successor, hrow _ hb.1]
  exact if_congr (by omega) rfl rfl

theorem successor_F4 (b : Fin 256) :
    successor 8 b = if 0x80 ≤ b.val ∧ b.val ≤ 0x8F then 3 else utf8Reject := by
  have hrow : ∀ t < 12, utf8d.getD (256 + 8 * 16 + t) 0 =
      if t = 1 then 3 else utf8Reject := by decide
  have hb := byteType_spec b
  rw [successor, hrow _ hb.1]
  exact if_congr (by omega) rfl rfl

def leadingBits (b : Fin 256) : ℕ := (0xFF >>> byteType b) &&& b.val

/-- How many bytes follow the first one. Of the bytes that start three or four, two each restrict
the byte that follows. -/
theorem lead_spec (b : Fin 256) :
    (b.val < 0x80 → successor utf8Accept b = utf8Accept ∧ leadingBits b = b.val) ∧
    (0xC2 ≤ b.val ∧ b.val ≤ 0xDF →
      successor utf8Accept b = 2 ∧ leadingBits b = b.val - 0xC0) ∧
    (0xE0 ≤ b.val ∧ b.val ≤ 0xEF →
      successor utf8Accept b = (if b.val = 0xE0 then 4 else if b.val = 0xED then 5 else 3) ∧
        leadingBits b = b.val - 0xE0) ∧
    (0xF0 ≤ b.val ∧ b.val ≤ 0xF4 →
      successor utf8Accept b = (if b.val = 0xF0 then 6 else if b.val = 0xF4 then 8 else 7) ∧
        leadingBits b = b.val - 0xF0) ∧
    ((0x80 ≤ b.val ∧ b.val < 0xC2) ∨ 0xF4 < b.val → successor utf8Accept b = utf8Reject) := by
  revert b
  decide +kernel

end Table

/-- A continuation byte adds six bits, and the shift loses none. -/
theorem decode_bits {b : Fin 256} {codep : ℕ} (hb : Utf8.Continues b) (hc : codep < 2 ^ 26) :
    (b.val &&& 0x3F) ||| (codep <<< 6) % 2 ^ 32 = codep * 0x40 + (b.val - 0x80) := by
  obtain ⟨hlo, hhi⟩ := hb
  have hand : b.val &&& 0x3F = b.val - 0x80 := by
    rw [show 0x3F = 2 ^ 6 - 1 from rfl, Nat.and_two_pow_sub_one_eq_mod]
    omega
  have hshift : (codep <<< 6) % 2 ^ 32 = codep <<< 6 := by
    rw [Nat.shiftLeft_eq]
    exact Nat.mod_eq_of_lt (by omega)
  rw [hand, hshift, Nat.or_comm, ← Nat.shiftLeft_add_eq_or_of_lt (by omega), Nat.shiftLeft_eq]

/-- Between code points the bits collected before play no part. -/
theorem codePoints_accept (codep codep' : ℕ) (s : Bytes) :
    codePoints utf8Accept codep s = codePoints utf8Accept codep' s := by
  cases s with
  | nil => rfl
  | cons b s => simp only [codePoints, decode, ne_eq, not_true_eq_false, if_false]

section States
variable {q q' lo hi codep : ℕ} {b : Fin 256} {s : Bytes} {ns : List ℕ}

theorem codePoints_reject (h : successor q b = utf8Reject) :
    codePoints q codep (b :: s) = none := by
  simp only [codePoints, decode, h]
  rfl

theorem codePoints_goesOn (h0 : successor q b ≠ utf8Accept) (h1 : successor q b ≠ utf8Reject) :
    codePoints q codep (b :: s) =
      codePoints (decode b q codep).1 (decode b q codep).2 s := by
  simp only [codePoints, decode, h0, h1, if_false]

theorem codePoints_found (h : successor q b = utf8Accept) :
    codePoints q codep (b :: s) =
      (codePoints utf8Accept 0 s).map ((decode b q codep).2 :: ·) := by
  simp only [codePoints, decode, h, if_true]
  rw [codePoints_accept _ 0]

theorem codePoints_inner (hq : ∀ b, successor q b =
      if lo ≤ b.val ∧ b.val ≤ hi then q' else utf8Reject)
    (h0 : q ≠ utf8Accept) (h0' : q' ≠ utf8Accept) (h1' : q' ≠ utf8Reject)
    (hlo : 0x80 ≤ lo) (hhi : hi ≤ 0xBF) (hc : codep < 2 ^ 26) :
    codePoints q codep s = some ns ↔ ∃ b r, s = b :: r ∧ (lo ≤ b.val ∧ b.val ≤ hi) ∧
      codePoints q' (codep * 0x40 + (b.val - 0x80)) r = some ns := by
  cases s with
  | nil => simp [codePoints, h0]
  | cons b s =>
    by_cases hb : lo ≤ b.val ∧ b.val ≤ hi
    · have hsucc : successor q b = q' := (hq b).trans (if_pos hb)
      rw [codePoints_goesOn (hsucc ▸ h0') (hsucc ▸ h1')]
      simp only [decode, hsucc, ne_eq, h0, not_false_eq_true, if_true,
        decode_bits ⟨hlo.trans hb.1, hb.2.trans hhi⟩ hc]
      constructor
      · exact fun h => ⟨b, s, rfl, hb, h⟩
      · rintro ⟨_, _, heq, -, h⟩
        obtain ⟨rfl, rfl⟩ := List.cons.inj heq
        exact h
    · rw [codePoints_reject ((hq b).trans (if_neg hb))]
      constructor
      · exact fun h => absurd h (by simp)
      · rintro ⟨_, _, heq, hb', -⟩
        exact absurd ((List.cons.inj heq).1 ▸ hb') hb

theorem codePoints_two (hc : codep < 2 ^ 26) :
    codePoints 2 codep s = some ns ↔ ∃ b r ms, s = b :: r ∧ Utf8.Continues b ∧
      ns = (codep * 0x40 + (b.val - 0x80)) :: ms ∧ codePoints utf8Accept 0 r = some ms := by
  cases s with
  | nil => simp [codePoints, utf8Accept]
  | cons b s =>
    by_cases hb : 0x80 ≤ b.val ∧ b.val ≤ 0xBF
    · rw [codePoints_found ((successor_two b).trans (if_pos hb)), Option.map_eq_some_iff]
      simp only [decode, ne_eq, show (2 : ℕ) ≠ utf8Accept by decide, not_false_eq_true, if_true,
        decode_bits hb hc]
      constructor
      · rintro ⟨ms, hms, rfl⟩
        exact ⟨b, s, ms, rfl, hb, rfl, hms⟩
      · rintro ⟨_, _, ms, heq, -, rfl, hms⟩
        obtain ⟨rfl, rfl⟩ := List.cons.inj heq
        exact ⟨ms, hms, rfl⟩
    · rw [codePoints_reject ((successor_two b).trans (if_neg hb))]
      constructor
      · exact fun h => absurd h (by simp)
      · rintro ⟨_, _, _, heq, hb', -⟩
        exact absurd ((List.cons.inj heq).1 ▸ hb') hb

theorem codePoints_one (h : successor utf8Accept b = utf8Accept) :
    codePoints utf8Accept 0 (b :: s) = (codePoints utf8Accept 0 s).map (leadingBits b :: ·) := by
  rw [codePoints_found h]
  simp only [decode, ne_eq, not_true_eq_false, if_false, leadingBits]

theorem codePoints_lead (hq : successor utf8Accept b = q) (h0 : q ≠ utf8Accept)
    (h1 : q ≠ utf8Reject) :
    codePoints utf8Accept 0 (b :: s) = codePoints q (leadingBits b) s := by
  subst hq
  rw [codePoints_goesOn h0 h1]
  simp only [decode, ne_eq, not_true_eq_false, if_false, leadingBits]

/-- The second byte of three: its least and its greatest value depend on the first. -/
theorem codePoints_three (ha : 0xE0 ≤ b.val ∧ b.val ≤ 0xEF) :
    codePoints utf8Accept 0 (b :: s) = some ns ↔ ∃ c d r n ms, s = c :: d :: r ∧
      Utf8.Encodes n [b, c, d] ∧ ns = n :: ms ∧ codePoints utf8Accept 0 r = some ms := by
  obtain ⟨hsucc, hbits⟩ := (lead_spec b).2.2.1 ha
  obtain ⟨lo, hi, hq, hlo, hhi, hiff⟩ : ∃ lo hi, (∀ c, successor (successor utf8Accept b) c =
      if lo ≤ c.val ∧ c.val ≤ hi then 2 else utf8Reject) ∧ 0x80 ≤ lo ∧ hi ≤ 0xBF ∧
      ∀ c : Fin 256, (lo ≤ c.val ∧ c.val ≤ hi) ↔ Utf8.Continues c ∧
        (b.val = 0xE0 → 0xA0 ≤ c.val) ∧ (b.val = 0xED → c.val ≤ 0x9F) := by
    unfold Utf8.Continues
    split_ifs at hsucc with h1 h2
    · exact ⟨0xA0, 0xBF, by rw [hsucc]; exact successor_E0, by omega, by omega, fun c => by omega⟩
    · exact ⟨0x80, 0x9F, by rw [hsucc]; exact successor_ED, by omega, by omega, fun c => by omega⟩
    · exact ⟨0x80, 0xBF, by rw [hsucc]; exact successor_three, by omega, by omega, fun c => by omega⟩
  have h0 : successor utf8Accept b ≠ utf8Accept := by rw [hsucc]; split_ifs <;> decide
  have h1 : successor utf8Accept b ≠ utf8Reject := by rw [hsucc]; split_ifs <;> decide
  rw [codePoints_lead rfl h0 h1, hbits,
    codePoints_inner hq h0 (by decide) (by decide) hlo hhi (by omega)]
  constructor
  · rintro ⟨c, r, rfl, hc, h⟩
    obtain ⟨d, r, ms, rfl, hd, rfl, hms⟩ := (codePoints_two (by omega)).mp h
    obtain ⟨hcont, hshort, hsurrogate⟩ := (hiff c).mp hc
    refine ⟨c, d, r, _, ms, rfl, .three ha hcont hd hshort hsurrogate, ?_, hms⟩
    exact congrArg (· :: ms) (by ring)
  · rintro ⟨c, d, r, n, ms, rfl, henc, rfl, hms⟩
    cases henc with
    | three _ hcont hd hshort hsurrogate =>
      have hc := (hiff c).mpr ⟨hcont, hshort, hsurrogate⟩
      refine ⟨c, d :: r, rfl, hc, (codePoints_two (by omega)).mpr ⟨d, r, ms, rfl, hd, ?_, hms⟩⟩
      exact congrArg (· :: ms) (by ring)

theorem codePoints_four (ha : 0xF0 ≤ b.val ∧ b.val ≤ 0xF4) :
    codePoints utf8Accept 0 (b :: s) = some ns ↔ ∃ c d e r n ms, s = c :: d :: e :: r ∧
      Utf8.Encodes n [b, c, d, e] ∧ ns = n :: ms ∧ codePoints utf8Accept 0 r = some ms := by
  obtain ⟨hsucc, hbits⟩ := (lead_spec b).2.2.2.1 ha
  obtain ⟨lo, hi, hq, hlo, hhi, hiff⟩ : ∃ lo hi, (∀ c, successor (successor utf8Accept b) c =
      if lo ≤ c.val ∧ c.val ≤ hi then 3 else utf8Reject) ∧ 0x80 ≤ lo ∧ hi ≤ 0xBF ∧
      ∀ c : Fin 256, (lo ≤ c.val ∧ c.val ≤ hi) ↔ Utf8.Continues c ∧
        (b.val = 0xF0 → 0x90 ≤ c.val) ∧ (b.val = 0xF4 → c.val ≤ 0x8F) := by
    unfold Utf8.Continues
    split_ifs at hsucc with h1 h2
    · exact ⟨0x90, 0xBF, by rw [hsucc]; exact successor_F0, by omega, by omega, fun c => by omega⟩
    · exact ⟨0x80, 0x8F, by rw [hsucc]; exact successor_F4, by omega, by omega, fun c => by omega⟩
    · exact ⟨0x80, 0xBF, by rw [hsucc]; exact successor_four, by omega, by omega, fun c => by omega⟩
  have h0 : successor utf8Accept b ≠ utf8Accept := by rw [hsucc]; split_ifs <;> decide
  have h1 : successor utf8Accept b ≠ utf8Reject := by rw [hsucc]; split_ifs <;> decide
  rw [codePoints_lead rfl h0 h1, hbits,
    codePoints_inner hq h0 (by decide) (by decide) hlo hhi (by omega)]
  constructor
  · rintro ⟨c, r, rfl, hc, h⟩
    obtain ⟨d, r, rfl, hd, h⟩ := (codePoints_inner successor_three (by decide) (by decide)
      (by decide) le_rfl le_rfl (by omega)).mp h
    obtain ⟨e, r, ms, rfl, he, rfl, hms⟩ := (codePoints_two (by omega)).mp h
    obtain ⟨hcont, hshort, hlarge⟩ := (hiff c).mp hc
    refine ⟨c, d, e, r, _, ms, rfl, .four ha hcont hd he hshort hlarge, ?_, hms⟩
    exact congrArg (· :: ms) (by ring)
  · rintro ⟨c, d, e, r, n, ms, rfl, henc, rfl, hms⟩
    cases henc with
    | four _ hcont hd he hshort hlarge =>
      have hc := (hiff c).mpr ⟨hcont, hshort, hlarge⟩
      unfold Utf8.Continues at hd
      refine ⟨c, d :: e :: r, rfl, hc, (codePoints_inner successor_three (by decide) (by decide)
        (by decide) le_rfl le_rfl (by omega)).mpr ⟨d, e :: r, rfl, hd,
        (codePoints_two (by omega)).mpr ⟨e, r, ms, rfl, he, ?_, hms⟩⟩⟩
      exact congrArg (· :: ms) (by ring)

end States

/-- Either the text is over, or an encoded character comes first. -/
theorem codePoints_split {s : Bytes} {ns : List ℕ} : codePoints utf8Accept 0 s = some ns ↔
    (s = [] ∧ ns = []) ∨ ∃ n x r ms, Utf8.Encodes n x ∧ s = x ++ r ∧ ns = n :: ms ∧
      codePoints utf8Accept 0 r = some ms := by
  constructor
  · intro h
    cases s with
    | nil => exact .inl ⟨rfl, by simpa [codePoints, eq_comm] using h⟩
    | cons a s =>
      right
      rcases show a.val < 0x80 ∨ ((0x80 ≤ a.val ∧ a.val < 0xC2) ∨ 0xF4 < a.val) ∨
          (0xC2 ≤ a.val ∧ a.val ≤ 0xDF) ∨ (0xE0 ≤ a.val ∧ a.val ≤ 0xEF) ∨
          (0xF0 ≤ a.val ∧ a.val ≤ 0xF4) by omega with ha | ha | ha | ha | ha
      · obtain ⟨hsucc, hbits⟩ := (lead_spec a).1 ha
        rw [codePoints_one hsucc, hbits, Option.map_eq_some_iff] at h
        obtain ⟨ms, hms, rfl⟩ := h
        exact ⟨a.val, [a], s, ms, .one ha, rfl, rfl, hms⟩
      · rw [codePoints_reject ((lead_spec a).2.2.2.2 ha)] at h
        cases h
      · obtain ⟨hsucc, hbits⟩ := (lead_spec a).2.1 ha
        rw [codePoints_lead hsucc (by decide) (by decide), hbits, codePoints_two (by omega)] at h
        obtain ⟨b, r, ms, rfl, hb, rfl, hms⟩ := h
        exact ⟨_, [a, b], r, ms, .two ha hb, rfl, rfl, hms⟩
      · obtain ⟨b, c, r, n, ms, rfl, henc, rfl, hms⟩ := (codePoints_three ha).mp h
        exact ⟨n, [a, b, c], r, ms, henc, rfl, rfl, hms⟩
      · obtain ⟨b, c, d, r, n, ms, rfl, henc, rfl, hms⟩ := (codePoints_four ha).mp h
        exact ⟨n, [a, b, c, d], r, ms, henc, rfl, rfl, hms⟩
  · rintro (⟨rfl, rfl⟩ | ⟨n, x, r, ms, henc, rfl, rfl, hms⟩)
    · rfl
    cases henc with
    | one ha =>
      obtain ⟨hsucc, hbits⟩ := (lead_spec _).1 ha
      rw [List.singleton_append, codePoints_one hsucc, hbits, hms]
      rfl
    | two ha hb =>
      obtain ⟨hsucc, hbits⟩ := (lead_spec _).2.1 ha
      rw [List.cons_append, codePoints_lead hsucc (by decide) (by decide), hbits,
        codePoints_two (by omega)]
      exact ⟨_, r, ms, rfl, hb, rfl, hms⟩
    | three ha hb hc hshort hsurrogate =>
      exact (codePoints_three ha).mpr
        ⟨_, _, r, _, ms, rfl, .three ha hb hc hshort hsurrogate, rfl, hms⟩
    | four ha hb hc hd hshort hlarge =>
      exact (codePoints_four ha).mpr
        ⟨_, _, _, r, _, ms, rfl, .four ha hb hc hd hshort hlarge, rfl, hms⟩

/-- The decoder accepts the encodings of texts and nothing else, and finds their characters. -/
theorem codePoints_eq_some {s : Bytes} {ns : List ℕ} : codePoints utf8Accept 0 s = some ns ↔
    ∃ cs : List Char, s = Utf8.encode cs ∧ ns = cs.map Char.toNat := by
  constructor
  · intro h
    induction hlen : s.length using Nat.strong_induction_on generalizing s ns with
    | _ k ih =>
      rcases codePoints_split.mp h with ⟨rfl, rfl⟩ | ⟨n, x, r, ms, henc, rfl, rfl, hms⟩
      · exact ⟨[], rfl, rfl⟩
      · have hlt : r.length < k := by
          rw [← hlen, List.length_append]
          exact Nat.lt_add_of_pos_left henc.length_pos
        obtain ⟨c, rfl, rfl⟩ := Utf8.encodes_iff.mp henc
        obtain ⟨cs, rfl, rfl⟩ := ih _ hlt hms rfl
        exact ⟨c :: cs, rfl, rfl⟩
  · rintro ⟨cs, rfl, rfl⟩
    induction cs with
    | nil => rfl
    | cons c cs ih =>
      exact codePoints_split.mpr
        (.inr ⟨_, _, _, _, Utf8.encodes_encodeChar c, rfl, rfl, ih⟩)

end Serializer

section Utf8
variable {a b : Fin 256} {s : Bytes}

theorem isContinuation_iff : isContinuation b = true ↔ Utf8.Continues b := by
  simp only [isContinuation, Bool.and_eq_true, decide_eq_true_eq, Fin.le_def]
  rfl

theorem isThreeByteLead_iff : isThreeByteLead a b = true ↔ (0xE0 ≤ a.val ∧ a.val ≤ 0xEF) ∧
    Utf8.Continues b ∧ (a.val = 0xE0 → 0xA0 ≤ b.val) ∧ (a.val = 0xED → b.val ≤ 0x9F) := by
  simp only [isThreeByteLead, Bool.or_eq_true, Bool.and_eq_true, decide_eq_true_eq,
    isContinuation_iff, Utf8.Continues, Fin.le_def, Fin.ext_iff, ne_eq]
  omega

theorem isFourByteLead_iff : isFourByteLead a b = true ↔ (0xF0 ≤ a.val ∧ a.val ≤ 0xF4) ∧
    Utf8.Continues b ∧ (a.val = 0xF0 → 0x90 ≤ b.val) ∧ (a.val = 0xF4 → b.val ≤ 0x8F) := by
  simp only [isFourByteLead, Bool.or_eq_true, Bool.and_eq_true, decide_eq_true_eq,
    isContinuation_iff, Utf8.Continues, Fin.le_def, Fin.ext_iff]
  omega

theorem utf8_split : utf8 s = true ↔
    s = [] ∨ ∃ n x r, Utf8.Encodes n x ∧ s = x ++ r ∧ utf8 r = true := by
  constructor
  · intro h
    cases s with
    | nil => exact .inl rfl
    | cons a r =>
      right
      rw [utf8.eq_def] at h
      simp only [Bool.or_eq_true, Bool.and_eq_true, decide_eq_true_eq] at h
      rcases h with ⟨ha, hr⟩ | h
      · exact ⟨_, [a], r, .one ha, rfl, hr⟩
      cases r with
      | nil => cases h
      | cons b r =>
        simp only [Bool.or_eq_true, Bool.and_eq_true, decide_eq_true_eq,
          isContinuation_iff] at h
        rcases h with ⟨⟨ha, hb⟩, hr⟩ | h
        · exact ⟨_, [a, b], r, .two ha hb, rfl, hr⟩
        cases r with
        | nil => cases h
        | cons c r =>
          simp only [Bool.or_eq_true, Bool.and_eq_true, isContinuation_iff,
            isThreeByteLead_iff] at h
          rcases h with ⟨⟨⟨ha, hb, hshort, hsurrogate⟩, hc⟩, hr⟩ | h
          · exact ⟨_, [a, b, c], r, .three ha hb hc hshort hsurrogate, rfl, hr⟩
          cases r with
          | nil => cases h
          | cons d r =>
            simp only [Bool.and_eq_true, isContinuation_iff, isFourByteLead_iff] at h
            obtain ⟨⟨⟨⟨ha, hb, hshort, hlarge⟩, hc⟩, hd⟩, hr⟩ := h
            exact ⟨_, [a, b, c, d], r, .four ha hb hc hd hshort hlarge, rfl, hr⟩
  · rintro (rfl | ⟨n, x, r, henc, rfl, hr⟩)
    · rfl
    cases henc with
    | @one a ha =>
      have ha' : a < 0x80 := ha
      rw [List.singleton_append, utf8.eq_def]
      simp only [ha', hr, decide_true, Bool.and_self, Bool.true_or]
    | @two a b ha hb =>
      have hlo : 0xC2 ≤ a := ha.1
      have hhi : a ≤ 0xDF := ha.2
      rw [List.cons_append, List.singleton_append, utf8.eq_def]
      simp only [hlo, hhi, isContinuation_iff.mpr hb, hr, decide_true, Bool.and_self,
        Bool.true_or, Bool.or_true]
    | three ha hb hc hshort hsurrogate =>
      have hlead := isThreeByteLead_iff.mpr ⟨ha, hb, hshort, hsurrogate⟩
      rw [List.cons_append, List.cons_append, List.singleton_append, utf8.eq_def]
      simp only [hlead, isContinuation_iff.mpr hc, hr, Bool.and_self, Bool.true_or,
        Bool.or_true]
    | four ha hb hc hd hshort hlarge =>
      have hlead := isFourByteLead_iff.mpr ⟨ha, hb, hshort, hlarge⟩
      rw [List.cons_append, List.cons_append, List.cons_append, List.singleton_append,
        utf8.eq_def]
      simp only [hlead, isContinuation_iff.mpr hc, isContinuation_iff.mpr hd, hr, Bool.and_self,
        Bool.or_true]

/-- A string is well-formed if it encodes a text. -/
theorem utf8_iff : utf8 s = true ↔ ∃ cs : List Char, s = Utf8.encode cs := by
  constructor
  · intro h
    induction hlen : s.length using Nat.strong_induction_on generalizing s with
    | _ k ih =>
      rcases utf8_split.mp h with rfl | ⟨n, x, r, henc, rfl, hr⟩
      · exact ⟨[], rfl⟩
      · have hlt : r.length < k := by
          rw [← hlen, List.length_append]
          exact Nat.lt_add_of_pos_left henc.length_pos
        obtain ⟨c, rfl, rfl⟩ := Utf8.encodes_iff.mp henc
        obtain ⟨cs, rfl⟩ := ih _ hlt hr rfl
        exact ⟨c :: cs, rfl⟩
  · rintro ⟨cs, rfl⟩
    induction cs with
    | nil => rfl
    | cons c cs ih => exact utf8_split.mpr (.inr ⟨_, _, _, Utf8.encodes_encodeChar c, rfl, ih⟩)

theorem codePoints_isSome (s : Bytes) :
    (Serializer.codePoints Serializer.utf8Accept 0 s).isSome = utf8 s := by
  rw [Bool.eq_iff_iff, Option.isSome_iff_exists, utf8_iff]
  simp only [Serializer.codePoints_eq_some]
  grind

end Utf8
end Rockets
