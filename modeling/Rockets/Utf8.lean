import Rockets.Bytes

set_option autoImplicit false

/-!
# UTF-8

The octets that encode a text, and the four shapes the encoding of a character can have.
-/
namespace Rockets.Utf8

def encodeChar (c : Char) : List (Fin 256) := (String.utf8EncodeChar c).map UInt8.toFin

def encode (cs : List Char) : List (Fin 256) := cs.flatMap encodeChar

@[simp] theorem encode_nil : encode [] = [] := rfl

@[simp] theorem encode_cons (c : Char) (cs : List Char) :
    encode (c :: cs) = encodeChar c ++ encode cs := rfl

/-- An octet that continues a character. -/
def Continues (b : Fin 256) : Prop := 0x80 ≤ b.val ∧ b.val ≤ 0xBF

/-- The code point `n` is a scalar value and these are its octets. No code point has a
longer encoding than it needs, and the surrogates have none. -/
inductive Encodes : ℕ → List (Fin 256) → Prop where
  | one {a : Fin 256} (ha : a.val < 0x80) : Encodes a.val [a]
  | two {a b : Fin 256} (ha : 0xC2 ≤ a.val ∧ a.val ≤ 0xDF) (hb : Continues b) :
    Encodes ((a.val - 0xC0) * 0x40 + (b.val - 0x80)) [a, b]
  | three {a b c : Fin 256} (ha : 0xE0 ≤ a.val ∧ a.val ≤ 0xEF) (hb : Continues b)
    (hc : Continues c) (short : a.val = 0xE0 → 0xA0 ≤ b.val)
    (surrogate : a.val = 0xED → b.val ≤ 0x9F) :
    Encodes ((a.val - 0xE0) * 0x1000 + (b.val - 0x80) * 0x40 + (c.val - 0x80)) [a, b, c]
  | four {a b c d : Fin 256} (ha : 0xF0 ≤ a.val ∧ a.val ≤ 0xF4) (hb : Continues b)
    (hc : Continues c) (hd : Continues d) (short : a.val = 0xF0 → 0x90 ≤ b.val)
    (large : a.val = 0xF4 → b.val ≤ 0x8F) :
    Encodes ((a.val - 0xF0) * 0x40000 + (b.val - 0x80) * 0x1000 + (c.val - 0x80) * 0x40 +
      (d.val - 0x80)) [a, b, c, d]

section Shapes
variable {c : Char}

theorem scalar (c : Char) :
    c.toNat < 0xD800 ∨ (0xDFFF < c.toNat ∧ c.toNat < 0x110000) := c.valid

theorem exists_char {n : ℕ} (h : n.isValidChar) : ∃ c : Char, c.toNat = n :=
  ⟨Char.ofNatAux n h, by simp [Char.toNat, Char.ofNatAux]⟩

theorem encodeChar_one (h : c.toNat < 0x80) : encodeChar c = [Fin.ofNat 256 c.toNat] := by
  rw [Char.toNat] at h
  simp only [encodeChar, String.utf8EncodeChar]
  rw [if_pos (by omega)]
  rfl

theorem encodeChar_two (h : 0x80 ≤ c.toNat) (h' : c.toNat < 0x800) :
    encodeChar c = [Fin.ofNat 256 (c.toNat / 0x40 % 0x20 + 0xC0),
      Fin.ofNat 256 (c.toNat % 0x40 + 0x80)] := by
  rw [Char.toNat] at h h'
  simp only [encodeChar, String.utf8EncodeChar]
  rw [if_neg (by omega), if_pos (by omega)]
  rfl

theorem encodeChar_three (h : 0x800 ≤ c.toNat) (h' : c.toNat < 0x10000) :
    encodeChar c = [Fin.ofNat 256 (c.toNat / 0x1000 % 0x10 + 0xE0),
      Fin.ofNat 256 (c.toNat / 0x40 % 0x40 + 0x80), Fin.ofNat 256 (c.toNat % 0x40 + 0x80)] := by
  rw [Char.toNat] at h h'
  simp only [encodeChar, String.utf8EncodeChar]
  rw [if_neg (by omega), if_neg (by omega), if_pos (by omega)]
  rfl

theorem encodeChar_four (h : 0x10000 ≤ c.toNat) :
    encodeChar c = [Fin.ofNat 256 (c.toNat / 0x40000 % 8 + 0xF0),
      Fin.ofNat 256 (c.toNat / 0x1000 % 0x40 + 0x80),
      Fin.ofNat 256 (c.toNat / 0x40 % 0x40 + 0x80), Fin.ofNat 256 (c.toNat % 0x40 + 0x80)] := by
  rw [Char.toNat] at h
  simp only [encodeChar, String.utf8EncodeChar]
  rw [if_neg (by omega), if_neg (by omega), if_neg (by omega)]
  rfl

/-- Split at a boundary between the lengths: below it one shape, from it on the next. -/
theorem encodes_encodeChar (c : Char) : Encodes c.toNat (encodeChar c) := by
  have hscalar := scalar c
  generalize hn : c.toNat = n at hscalar
  by_cases h1 : n < 0x80
  · rw [encodeChar_one (hn ▸ h1), hn]
    have hval : (Fin.ofNat 256 n).val = n := Nat.mod_eq_of_lt (by omega)
    have h := Encodes.one (a := Fin.ofNat 256 n) (by omega)
    rwa [hval] at h
  by_cases h2 : n < 0x800
  · rw [encodeChar_two (by omega) (by omega), hn]
    have h := Encodes.two (a := Fin.ofNat 256 (n / 0x40 % 0x20 + 0xC0))
      (b := Fin.ofNat 256 (n % 0x40 + 0x80)) (by simp; omega) (by simp [Continues]; omega)
    convert h using 1
    simp
    omega
  by_cases h3 : n < 0x10000
  · rw [encodeChar_three (by omega) (by omega), hn]
    have h := Encodes.three (a := Fin.ofNat 256 (n / 0x1000 % 0x10 + 0xE0))
      (b := Fin.ofNat 256 (n / 0x40 % 0x40 + 0x80)) (c := Fin.ofNat 256 (n % 0x40 + 0x80))
      (by simp; omega) (by simp [Continues]; omega) (by simp [Continues]; omega)
      (by simp; omega) (by simp; omega)
    convert h using 1
    simp
    omega
  · rw [encodeChar_four (by omega), hn]
    have h := Encodes.four (a := Fin.ofNat 256 (n / 0x40000 % 8 + 0xF0))
      (b := Fin.ofNat 256 (n / 0x1000 % 0x40 + 0x80))
      (c := Fin.ofNat 256 (n / 0x40 % 0x40 + 0x80)) (d := Fin.ofNat 256 (n % 0x40 + 0x80))
      (by simp; omega) (by simp [Continues]; omega) (by simp [Continues]; omega)
      (by simp [Continues]; omega) (by simp; omega) (by simp; omega)
    convert h using 1
    simp
    omega

end Shapes

variable {n : ℕ} {x : List (Fin 256)}

theorem Encodes.scalar (h : Encodes n x) : n.isValidChar := by
  unfold Nat.isValidChar
  cases h with
  | one ha => omega
  | two ha hb =>
    unfold Continues at hb
    omega
  | three ha hb hc short surrogate =>
    unfold Continues at hb hc
    omega
  | four ha hb hc hd short large =>
    unfold Continues at hb hc hd
    omega

theorem Encodes.length_pos (h : Encodes n x) : 0 < x.length := by
  cases h <;> simp

/-- Below 0x80 the octet is the code point, and it stands alone. -/
theorem Encodes.of_lt {a : Fin 256} {t : List (Fin 256)} (h : Encodes n (a :: t))
    (ha : a.val < 0x80) : n = a.val ∧ t = [] := by
  cases h with
  | one => exact ⟨rfl, rfl⟩
  | two h => omega
  | three h => omega
  | four h => omega

theorem Encodes.le_of_le {a : Fin 256} {t : List (Fin 256)} (h : Encodes n (a :: t))
    (ha : 0x80 ≤ a.val) : 0x80 ≤ n := by
  cases h with
  | one h => omega
  | two h hb =>
    unfold Continues at hb
    omega
  | three h hb hc hshort hsurrogate =>
    unfold Continues at hb hc
    omega
  | four h hb hc hd hshort hlarge =>
    unfold Continues at hb hc hd
    omega

/-- A number that is the value of an octet. -/
theorem ofNat_eq {a : Fin 256} {m : ℕ} (h : m = a.val) : Fin.ofNat 256 m = a :=
  Fin.ext (by rw [h]; exact Nat.mod_eq_of_lt a.isLt)

theorem Encodes.encodeChar {c : Char} (h : Encodes n x) (hc : c.toNat = n) :
    x = Utf8.encodeChar c := by
  cases h with
  | one ha => rw [encodeChar_one (by omega), ofNat_eq hc]
  | @two a b ha hb =>
    unfold Continues at hb
    rw [encodeChar_two (by omega) (by omega), ofNat_eq (a := a) (by omega),
      ofNat_eq (a := b) (by omega)]
  | @three a b c' ha hb hc' short surrogate =>
    unfold Continues at hb hc'
    rw [encodeChar_three (by omega) (by omega), ofNat_eq (a := a) (by omega),
      ofNat_eq (a := b) (by omega), ofNat_eq (a := c') (by omega)]
  | @four a b c' d ha hb hc' hd short large =>
    unfold Continues at hb hc' hd
    rw [encodeChar_four (by omega), ofNat_eq (a := a) (by omega), ofNat_eq (a := b) (by omega),
      ofNat_eq (a := c') (by omega), ofNat_eq (a := d) (by omega)]

theorem encodes_iff : Encodes n x ↔ ∃ c : Char, c.toNat = n ∧ x = encodeChar c := by
  constructor
  · intro h
    obtain ⟨c, hc⟩ := exists_char h.scalar
    exact ⟨c, hc, h.encodeChar hc⟩
  · rintro ⟨c, rfl, rfl⟩
    exact encodes_encodeChar c

end Rockets.Utf8
