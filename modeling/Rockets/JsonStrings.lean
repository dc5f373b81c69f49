import Rockets.JsonDecoder
import Rockets.JsonLexer

set_option autoImplicit false

/-!
# Strings as the lexer reads them

The lexer takes a string literal to its content if and only if the grammar does.
-/
namespace Rockets.Lexing
open Grammar

/-- Where a lexer stands: what it is still to read and what its buffer holds. -/
structure At (l : Lexer) (rest buffer : Bytes) : Prop where
  atEnd : l.nextUnget = true → l.current = none → l.input = []
  rest : l.rest = rest
  buffer : l.tokenBuffer = buffer

namespace At
variable {l : Lexer} {rest buf : Bytes} {b : Fin 256}

theorem cons (h : At l (b :: rest) buf) : l.get.current = some b ∧ At l.get rest buf := by
  obtain ⟨hend, hrest, hbuf⟩ := h
  rw [Lexer.rest] at hrest
  cases hu : l.nextUnget with
  | false =>
    simp only [hu, Bool.false_eq_true, if_false] at hrest
    refine ⟨?_, by simp, ?_, hbuf⟩
    · simp [Lexer.get_current, hu, hrest]
    · simp [Lexer.get_rest, hu, hrest]
  | true =>
    simp only [hu, if_true] at hrest
    cases hc : l.current with
    | none =>
      rw [hc, hend hu hc] at hrest
      cases hrest
    | some c =>
      rw [hc] at hrest
      obtain ⟨rfl, rfl⟩ := List.cons.inj hrest
      refine ⟨?_, by simp, ?_, hbuf⟩
      · simp [Lexer.get_current, hu, hc]
      · simp [Lexer.get_rest, hu]

theorem nil (h : At l [] buf) : l.get.current = none ∧ At l.get [] buf := by
  obtain ⟨-, hrest, hbuf⟩ := h
  rw [Lexer.rest] at hrest
  cases hu : l.nextUnget with
  | false =>
    simp only [hu, Bool.false_eq_true, if_false] at hrest
    exact ⟨by simp [Lexer.get_current, hu, hrest], by simp,
      by simp [Lexer.get_rest, hu, hrest], hbuf⟩
  | true =>
    simp only [hu, if_true, List.append_eq_nil_iff, Option.toList_eq_nil_iff] at hrest
    exact ⟨by simp [Lexer.get_current, hu, hrest], by simp,
      by simp [Lexer.get_rest, hu, hrest], hbuf⟩

theorem of_some (h : At l rest buf) (hb : l.get.current = some b) :
    ∃ r, rest = b :: r ∧ At l.get r buf := by
  cases rest with
  | nil => cases h.nil.1.symm.trans hb
  | cons c r =>
    obtain ⟨hc, hr⟩ := h.cons
    obtain rfl := Option.some.inj (hc.symm.trans hb)
    exact ⟨r, rfl, hr⟩

theorem of_none (h : At l rest buf) (hb : l.get.current = none) :
    rest = [] ∧ At l.get [] buf := by
  cases rest with
  | nil => exact ⟨rfl, h.nil.2⟩
  | cons c r => cases h.cons.1.symm.trans hb

theorem add (h : At l rest buf) (c : Fin 256) : At (l.add c) rest (buf ++ [c]) :=
  ⟨h.atEnd, h.rest, congrArg (· ++ [c]) h.buffer⟩

theorem addAll (h : At l rest buf) (cs : Bytes) : At (l.addAll cs) rest (buf ++ cs) :=
  ⟨h.atEnd, h.rest, congrArg (· ++ cs) h.buffer⟩

theorem reset (h : At l rest buf) : At l.reset rest [] := ⟨h.atEnd, h.rest, rfl⟩

theorem unget (h : At l rest buf) : At l.get.unget rest buf := by
  refine ⟨fun _ hnone => ?_, (Lexer.unget_rest l).trans h.rest, h.buffer⟩
  exact (h.of_none hnone).2.rest

theorem ofInput (input : Bytes) : At (.ofInput input) input [] :=
  ⟨by simp [Lexer.ofInput], rfl, rfl⟩

end At

section CodePoints
variable {l l' : Lexer} {rest r buf hex : Bytes} {n : ℕ}

theorem getCodepoint_complete (h : FourHex hex n) (hl : At l (hex ++ r) buf) :
    ∃ l', getCodepoint l = (some n, l') ∧ At l' r buf := by
  obtain ⟨ha, hb, hc, hd⟩ := h
  obtain ⟨ha', h1⟩ := hl.cons
  obtain ⟨hb', h2⟩ := h1.cons
  obtain ⟨hc', h3⟩ := h2.cons
  obtain ⟨hd', h4⟩ := h3.cons
  refine ⟨_, ?_, h4⟩
  simp only [getCodepoint, getDigits, ha', hb', hc', hd', Option.bind_some, ha, hb, hc, hd,
    Nat.shiftLeft_eq]
  norm_num

theorem getDigits_sound {factor : ℕ} {factors : List ℕ} {codepoint : ℕ}
    (h : getDigits (factor :: factors) codepoint l = (some n, l')) (hl : At l rest buf) :
    ∃ b d r l1, rest = b :: r ∧ hexValue b = some d ∧ At l1 r buf ∧
      getDigits factors (codepoint + d <<< factor) l1 = (some n, l') := by
  rw [getDigits] at h
  split at h
  · cases h
  · next d hd =>
    obtain ⟨b, hb, hd⟩ := Option.bind_eq_some_iff.mp hd
    obtain ⟨r, rfl, hr⟩ := hl.of_some hb
    exact ⟨b, d, r, _, rfl, hd, hr, h⟩

theorem getCodepoint_sound (h : getCodepoint l = (some n, l')) (hl : At l rest buf) :
    ∃ hex r, rest = hex ++ r ∧ FourHex hex n ∧ At l' r buf := by
  obtain ⟨a, i, r, l1, rfl, ha, h1, h⟩ := getDigits_sound h hl
  obtain ⟨b, j, r, l2, rfl, hb, h2, h⟩ := getDigits_sound h h1
  obtain ⟨c, k, r, l3, rfl, hc, h3, h⟩ := getDigits_sound h h2
  obtain ⟨d, m, r, l4, rfl, hd, h4, h⟩ := getDigits_sound h h3
  simp only [getDigits, Prod.mk.injEq, Option.some.injEq] at h
  obtain ⟨rfl, rfl⟩ := h
  refine ⟨[a, b, c, d], r, rfl, ?_, h4⟩
  convert FourHex.intro ha hb hc hd using 1
  simp only [Nat.shiftLeft_eq]
  norm_num

theorem FourHex_lt (h : FourHex hex n) : n < 0x10000 := by
  have hlt : ∀ (b : Fin 256) (d : ℕ), hexValue b = some d → d < 16 := by
    intro b d hb
    unfold hexValue at hb
    split_ifs at hb <;> · cases hb; omega
  obtain ⟨ha, hb, hc, hd⟩ := h
  have h1 := hlt _ _ ha
  have h2 := hlt _ _ hb
  have h3 := hlt _ _ hc
  have h4 := hlt _ _ hd
  omega

/-- The bytes that the lexer makes of a code point are its encoding. -/
theorem codepointBytes_eq (c : Char) : codepointBytes c.toNat = Utf8.encodeChar c := by
  have hscalar := Utf8.scalar c
  have hor : ∀ a b i : ℕ, b < 2 ^ i → a <<< i ||| b = a * 2 ^ i + b := fun a b i h => by
    rw [← Nat.shiftLeft_add_eq_or_of_lt h, Nat.shiftLeft_eq]
  have hand : ∀ n : ℕ, n &&& 0x3F = n % 0x40 := fun n => Nat.and_two_pow_sub_one_eq_mod n 6
  have hcont : ∀ n : ℕ, 0x80 ||| n &&& 0x3F = n % 0x40 + 0x80 := fun n => by
    rw [hand, show 0x80 = 2 <<< 6 from rfl, hor _ _ _ (by omega)]
    omega
  unfold codepointBytes
  simp only [hcont, Nat.shiftRight_eq_div_pow]
  split_ifs with h1 h2 h3
  · rw [Utf8.encodeChar_one h1]
  · rw [Utf8.encodeChar_two (by omega) (by omega), show 0xC0 = 3 <<< 6 from rfl,
      hor _ _ _ (by omega)]
    congr 2
    omega
  · rw [Utf8.encodeChar_three (by omega) (by omega), show 0xE0 = 7 <<< 5 from rfl,
      hor _ _ _ (by omega)]
    congr 2
    omega
  · rw [Utf8.encodeChar_four (by omega), show 0xF0 = 15 <<< 4 from rfl,
      hor _ _ _ (by omega)]
    congr 2
    omega

theorem codepointBytes_of_encodes {x : Bytes} (h : Utf8.Encodes n x) : codepointBytes n = x := by
  obtain ⟨c, rfl, rfl⟩ := Utf8.encodes_iff.mp h
  exact codepointBytes_eq c

theorem encodes_codepointBytes (h : n.isValidChar) : Utf8.Encodes n (codepointBytes n) := by
  obtain ⟨c, rfl⟩ := Utf8.exists_char h
  rw [codepointBytes_eq]
  exact Utf8.encodes_encodeChar c

end CodePoints

section Sequences
variable {l l' : Lexer} {rest r buf bs : Bytes} {ranges : List (ℕ × ℕ)} {a : Fin 256}

def InRanges (bs : Bytes) (ranges : List (ℕ × ℕ)) : Prop :=
  List.Forall₂ (fun b range => range.1 ≤ b.val ∧ b.val ≤ range.2) bs ranges

theorem bytesInRange_complete (h : InRanges bs ranges) (hl : At l (bs ++ r) buf) :
    ∃ l', bytesInRange ranges l = (true, l') ∧ At l' r (buf ++ bs) := by
  induction h generalizing l buf with
  | nil => exact ⟨l, rfl, by simpa using hl⟩
  | @cons b range bs ranges hb hbs ih =>
    obtain ⟨hcur, hget⟩ := hl.cons
    obtain ⟨l', hrun, hl'⟩ := ih (hget.add b)
    refine ⟨l', ?_, by simpa using hl'⟩
    simp only [bytesInRange, hcur, hb, and_self, if_true, hrun]

theorem bytesInRange_sound (h : bytesInRange ranges l = (true, l')) (hl : At l rest buf) :
    ∃ bs r, rest = bs ++ r ∧ InRanges bs ranges ∧ At l' r (buf ++ bs) := by
  induction ranges generalizing l rest buf with
  | nil =>
    obtain ⟨-, rfl⟩ := Prod.mk.inj h
    exact ⟨[], rest, rfl, .nil, by simpa using hl⟩
  | cons range ranges ih =>
    rw [bytesInRange] at h
    split at h
    · cases h
    · next c hc =>
      split_ifs at h with hrange
      · obtain ⟨r, rfl, hget⟩ := hl.of_some hc
        obtain ⟨bs, r, rfl, hbs, hl'⟩ := ih h (hget.add c)
        exact ⟨c :: bs, r, rfl, .cons hrange hbs, by simpa using hl'⟩
      · cases h

theorem inRanges_one {p : ℕ × ℕ} : InRanges bs [p] ↔
    ∃ b, bs = [b] ∧ (p.1 ≤ b.val ∧ b.val ≤ p.2) := by
  constructor
  · rintro (_ | ⟨h, _ | _⟩)
    exact ⟨_, rfl, h⟩
  · rintro ⟨b, rfl, h⟩
    exact .cons h .nil

theorem inRanges_cons {p : ℕ × ℕ} : InRanges bs (p :: ranges) ↔
    ∃ b bs', bs = b :: bs' ∧ (p.1 ≤ b.val ∧ b.val ≤ p.2) ∧ InRanges bs' ranges := by
  constructor
  · rintro (_ | ⟨h, hs⟩)
    exact ⟨_, _, rfl, h, hs⟩
  · rintro ⟨b, bs', rfl, h, hs⟩
    exact .cons h hs

/-- After its first byte a sequence of two or more is recognised by its ranges. -/
theorem followRanges_iff (ha : 0x80 ≤ a.val) :
    (∃ ranges, followRanges a = some ranges ∧ InRanges bs ranges) ↔
      ∃ n, Utf8.Encodes n (a :: bs) := by
  constructor
  · rintro ⟨ranges, hranges, hbs⟩
    unfold followRanges at hranges
    simp only [Fin.ext_iff] at hranges
    split_ifs at hranges with h1 h2 h3 h4 h5 h6 h7
    · cases hranges
      obtain ⟨b, rfl, hb⟩ := inRanges_one.mp hbs
      exact ⟨_, .two h1 hb⟩
    all_goals cases hranges; obtain ⟨b, bs, rfl, hb, hbs⟩ := inRanges_cons.mp hbs
    iterate 3
      obtain ⟨c, rfl, hc⟩ := inRanges_one.mp hbs
      refine ⟨_, .three ?_ ?_ hc ?_ ?_⟩ <;> simp [Utf8.Continues] at * <;> omega
    all_goals
      obtain ⟨c, bs, rfl, hc, hbs⟩ := inRanges_cons.mp hbs
      obtain ⟨d, rfl, hd⟩ := inRanges_one.mp hbs
      refine ⟨_, .four ?_ ?_ hc hd ?_ ?_⟩ <;> simp [Utf8.Continues] at * <;> omega
  · rintro ⟨n, h⟩
    cases h with
    | one h => omega
    | two h hb => exact ⟨_, if_pos h, inRanges_one.mpr ⟨_, rfl, hb⟩⟩
    | @three a b c h hb hc hshort hsurrogate =>
      unfold Utf8.Continues at hb
      suffices ∃ lo hi, followRanges a = some [(lo, hi), (0x80, 0xBF)] ∧ lo ≤ b.val ∧ b.val ≤ hi by
        obtain ⟨lo, hi, hranges, hrange⟩ := this
        exact ⟨_, hranges, inRanges_cons.mpr
          ⟨b, [c], rfl, hrange, inRanges_one.mpr ⟨c, rfl, hc⟩⟩⟩
      unfold followRanges
      simp only [Fin.ext_iff]
      split_ifs
      all_goals first | omega | exact ⟨_, _, rfl, by omega⟩
    | @four a b c d h hb hc hd hshort hlarge =>
      unfold Utf8.Continues at hb
      suffices ∃ lo hi, followRanges a = some [(lo, hi), (0x80, 0xBF), (0x80, 0xBF)] ∧
          lo ≤ b.val ∧ b.val ≤ hi by
        obtain ⟨lo, hi, hranges, hrange⟩ := this
        exact ⟨_, hranges, inRanges_cons.mpr ⟨b, [c, d], rfl, hrange,
          inRanges_cons.mpr ⟨c, [d], rfl, hc, inRanges_one.mpr ⟨d, rfl, hd⟩⟩⟩⟩
      unfold followRanges
      simp only [Fin.ext_iff]
      split_ifs
      all_goals first | omega | exact ⟨_, _, rfl, by omega⟩

end Sequences

section Escapes
variable {l l' : Lexer} {rest r buf t x s : Bytes} {n : ℕ} {e b : Fin 256}

/-- Everything but `\u` after a backslash. -/
theorem scanEscape_short (he : l.get.current = some e) (hu : e ≠ 0x75) :
    scanEscape l = match shortEscape e with
      | some b => .inr (l.get.add b)
      | none => .inl (.parseError
          (ascii "invalid string: forbidden character after backslash"), l.get) := by
  unfold scanEscape shortEscape
  simp only [he, Option.some.injEq]
  split_ifs <;> rfl

theorem scanEscape_unicode (he : l.get.current = some 0x75) :
    scanEscape l = scanUnicode l.get := by
  unfold scanEscape
  simp only [he]
  rfl

theorem scanPair_sound (high : 0xD800 ≤ n ∧ n ≤ 0xDBFF) (h : scanPair n l = .inr l')
    (hl : At l rest buf) : ∃ hex n' x r, rest = [0x5C, 0x75] ++ hex ++ r ∧ FourHex hex n' ∧
      (0xDC00 ≤ n' ∧ n' ≤ 0xDFFF) ∧
      Utf8.Encodes ((n - 0xD800) * 0x400 + (n' - 0xDC00) + 0x10000) x ∧ At l' r (buf ++ x) := by
  unfold scanPair at h
  split_ifs at h with h1 h2
  obtain ⟨r1, rfl, hl1⟩ := hl.of_some (not_not.mp h1)
  obtain ⟨r2, rfl, hl2⟩ := hl1.of_some (not_not.mp h2)
  split at h
  · cases h
  · next n' l3 hcode =>
    obtain ⟨hex, r, rfl, hhex, hl3⟩ := getCodepoint_sound hcode hl2
    split_ifs at h with hlow
    cases h
    have hcp : n <<< 10 + n' - 0x35FDC00 =
        (n - 0xD800) * 0x400 + (n' - 0xDC00) + 0x10000 := by
      rw [Nat.shiftLeft_eq]
      omega
    rw [hcp]
    have hvalid : Nat.isValidChar ((n - 0xD800) * 0x400 + (n' - 0xDC00) + 0x10000) :=
      .inr ⟨by omega, by omega⟩
    exact ⟨hex, n', _, r, rfl, hhex, hlow, encodes_codepointBytes hvalid, hl3.addAll _⟩

theorem scanUnicode_sound (h : scanUnicode l = .inr l') (hl : At l rest buf) :
    ∃ t x r, rest = t ++ r ∧ Character ([0x5C, 0x75] ++ t) x ∧ At l' r (buf ++ x) := by
  unfold scanUnicode at h
  split at h
  · cases h
  · next n l1 hcode =>
    obtain ⟨hex, r, rfl, hhex, hl1⟩ := getCodepoint_sound hcode hl
    split_ifs at h with hhigh hlow
    · obtain ⟨hex', n', x, r, rfl, hhex', hlow, hx, hl'⟩ := scanPair_sound hhigh h hl1
      refine ⟨hex ++ ([0x5C, 0x75] ++ hex'), x, r, by simp, ?_, hl'⟩
      rw [← List.append_assoc]
      exact .pair hhex hhigh hhex' hlow hx
    · cases h
      have hvalid : n.isValidChar := by
        have hlt := FourHex_lt hhex
        unfold Nat.isValidChar
        omega
      exact ⟨hex, _, r, rfl, .unicode hhex (encodes_codepointBytes hvalid), hl1.addAll _⟩

theorem scanEscape_sound (h : scanEscape l = .inr l') (hl : At l rest buf) :
    ∃ t x r, rest = t ++ r ∧ Character (0x5C :: t) x ∧ At l' r (buf ++ x) := by
  cases he : l.get.current with
  | none => simp [scanEscape, he] at h
  | some e =>
    obtain ⟨r, rfl, hget⟩ := hl.of_some he
    by_cases hu : e = 0x75
    · subst hu
      rw [scanEscape_unicode he] at h
      obtain ⟨t, x, r, rfl, hchar, hl'⟩ := scanUnicode_sound h hget
      exact ⟨0x75 :: t, x, r, rfl, hchar, hl'⟩
    · rw [scanEscape_short he hu] at h
      split at h
      · next b hb =>
        cases h
        exact ⟨[e], [b], r, rfl, .short hb, hget.add b⟩
      · cases h

theorem scanStringTurn_sound (h : scanStringTurn l = .inr l') (hl : At l rest buf) :
    ∃ t x r, rest = t ++ r ∧ Character t x ∧ At l' r (buf ++ x) := by
  unfold scanStringTurn at h
  dsimp only at h
  split at h
  · cases h
  · next c hc =>
    obtain ⟨r, rfl, hget⟩ := hl.of_some hc
    split_ifs at h with hquote hslash hcontrol hascii
    · obtain ⟨t, x, r, rfl, hchar, hl'⟩ := scanEscape_sound h hget
      exact ⟨c :: t, x, r, rfl, hslash ▸ hchar, hl'⟩
    · cases h
      refine ⟨[c], [c], r, rfl, .plain (.one (by omega)) (by omega) ?_ ?_, hget.add c⟩
      · exact fun heq => hquote (Fin.ext heq)
      · exact fun heq => hslash (Fin.ext heq)
    · split at h
      · cases h
      · next ranges hranges =>
        split at h
        · next l1 hrun =>
          cases h
          obtain ⟨bs, r, rfl, hbs, hl'⟩ := bytesInRange_sound hrun (hget.add c)
          obtain ⟨n, henc⟩ := (followRanges_iff (by omega)).mp ⟨ranges, hranges, hbs⟩
          have hn := henc.le_of_le (by omega)
          refine ⟨c :: bs, c :: bs, r, rfl, .plain henc (by omega) (by omega) (by omega), ?_⟩
          simpa using hl'
        · cases h

theorem scanPair_token {a : Token × Lexer} (h : scanPair n l = .inl a) :
    ∃ m, a.1 = .parseError m := by
  unfold scanPair at h
  split_ifs at h
  · exact ⟨_, (congrArg Prod.fst (Sum.inl.inj h)).symm⟩
  · exact ⟨_, (congrArg Prod.fst (Sum.inl.inj h)).symm⟩
  · split at h
    · exact ⟨_, (congrArg Prod.fst (Sum.inl.inj h)).symm⟩
    · split_ifs at h
      exact ⟨_, (congrArg Prod.fst (Sum.inl.inj h)).symm⟩

theorem scanUnicode_token {a : Token × Lexer} (h : scanUnicode l = .inl a) :
    ∃ m, a.1 = .parseError m := by
  unfold scanUnicode at h
  split at h
  · exact ⟨_, (congrArg Prod.fst (Sum.inl.inj h)).symm⟩
  · split_ifs at h
    · exact scanPair_token h
    · exact ⟨_, (congrArg Prod.fst (Sum.inl.inj h)).symm⟩

/-- A string does not end inside of an escape. -/
theorem scanEscape_token {a : Token × Lexer} (h : scanEscape l = .inl a) :
    ∃ m, a.1 = .parseError m := by
  cases he : l.get.current with
  | none =>
    simp only [scanEscape, he, reduceCtorEq, if_false] at h
    exact ⟨_, (congrArg Prod.fst (Sum.inl.inj h)).symm⟩
  | some e =>
    by_cases hu : e = 0x75
    · subst hu
      exact scanUnicode_token ((scanEscape_unicode he).symm.trans h)
    · rw [scanEscape_short he hu] at h
      split at h
      · cases h
      · exact ⟨_, (congrArg Prod.fst (Sum.inl.inj h)).symm⟩

theorem scanPair_complete {hex : Bytes} {n' : ℕ} (high : 0xD800 ≤ n ∧ n ≤ 0xDBFF)
    (h : FourHex hex n') (low : 0xDC00 ≤ n' ∧ n' ≤ 0xDFFF)
    (hx : Utf8.Encodes ((n - 0xD800) * 0x400 + (n' - 0xDC00) + 0x10000) x)
    (hl : At l (0x5C :: 0x75 :: (hex ++ r)) buf) :
    ∃ l', scanPair n l = .inr l' ∧ At l' r (buf ++ x) := by
  obtain ⟨hc1, hl1⟩ := hl.cons
  obtain ⟨hc2, hl2⟩ := hl1.cons
  obtain ⟨l3, hcode, hl3⟩ := getCodepoint_complete h hl2
  have hcp : n <<< 10 + n' - 0x35FDC00 =
      (n - 0xD800) * 0x400 + (n' - 0xDC00) + 0x10000 := by
    rw [Nat.shiftLeft_eq]
    omega
  simp only [scanPair, hc1, hc2, hcode, ne_eq, not_true_eq_false, if_false]
  rw [if_pos low, hcp, codepointBytes_of_encodes hx]
  exact ⟨_, rfl, hl3.addAll x⟩

theorem scanEscape_complete (h : Character (0x5C :: t) x) (hl : At l (t ++ r) buf) :
    ∃ l', scanEscape l = .inr l' ∧ At l' r (buf ++ x) := by
  generalize ht : (0x5C : Fin 256) :: t = u at h
  cases h with
  | plain h control quote backslash =>
    subst ht
    exact absurd (h.of_lt (by decide)).1 backslash
  | @short e b h =>
    obtain ⟨-, rfl⟩ := List.cons.inj ht
    obtain ⟨he, hget⟩ := hl.cons
    have hu : e ≠ 0x75 := by
      rintro rfl
      cases h
    exact ⟨_, by rw [scanEscape_short he hu, h], hget.add b⟩
  | @unicode hex x n h hx =>
    obtain ⟨-, rfl⟩ := List.cons.inj ht
    obtain ⟨he, hget⟩ := hl.cons
    obtain ⟨l1, hcode, hl1⟩ := getCodepoint_complete h hget
    have hvalid := hx.scalar
    unfold Nat.isValidChar at hvalid
    rw [scanEscape_unicode he]
    simp only [scanUnicode, hcode]
    rw [if_neg (by omega), if_neg (by omega), codepointBytes_of_encodes hx]
    exact ⟨_, rfl, hl1.addAll x⟩
  | @pair hex hex' x n n' h high h' low hx =>
    obtain rfl : t = 0x75 :: (hex ++ 0x5C :: 0x75 :: hex') := by simpa using ht
    obtain ⟨he, hget⟩ := hl.cons
    obtain ⟨l1, hcode, hl1⟩ := getCodepoint_complete (r := 0x5C :: 0x75 :: (hex' ++ r)) h
      (by simpa using hget)
    rw [scanEscape_unicode he]
    simp only [scanUnicode, hcode]
    rw [if_pos high]
    exact scanPair_complete high h' low hx hl1

theorem scanStringTurn_complete (h : Character t x) (hl : At l (t ++ r) buf) :
    ∃ l', scanStringTurn l = .inr l' ∧ At l' r (buf ++ x) := by
  cases t with
  | nil => cases h with | plain h => exact absurd h.length_pos (by simp)
  | cons c t =>
    obtain ⟨hc, hget⟩ := hl.cons
    unfold scanStringTurn
    simp only [hc]
    by_cases hslash : c = 0x5C
    · subst hslash
      rw [if_neg (by decide), if_pos rfl]
      exact scanEscape_complete h hget
    · have hplain : ∃ n, Utf8.Encodes n (c :: t) ∧ x = c :: t ∧ 0x20 ≤ n ∧ n ≠ 0x22 := by
        generalize hu : c :: t = u at h
        cases h with
        | @plain n x h control quote backslash => exact ⟨n, h, rfl, control, quote⟩
        | _ => exact absurd (List.cons.inj hu).1 hslash
      obtain ⟨n, henc, rfl, hcontrol, hquote⟩ := hplain
      by_cases hascii : c.val ≤ 0x7F
      · obtain ⟨rfl, rfl⟩ := henc.of_lt (by omega)
        have hne : c ≠ 0x22 := fun heq => hquote (congrArg Fin.val heq)
        rw [if_neg hne, if_neg hslash, if_neg (by omega), if_pos hascii]
        exact ⟨_, rfl, hget.add c⟩
      · obtain ⟨ranges, hranges, hbs⟩ := (followRanges_iff (by omega)).mpr ⟨n, henc⟩
        obtain ⟨l', hrun, hl'⟩ := bytesInRange_complete hbs (hget.add c)
        have hne : c ≠ 0x22 := fun heq => hascii (by rw [heq]; decide)
        rw [if_neg hne, if_neg hslash, if_neg (by omega), if_neg hascii]
        simp only [hranges, nextByteInRange, hrun]
        exact ⟨l', rfl, by simpa using hl'⟩

theorem scanStringTurn_quote (hl : At l (0x22 :: r) buf) :
    scanStringTurn l = .inl (.valueString buf, l.get) ∧ At l.get r buf := by
  obtain ⟨hc, hget⟩ := hl.cons
  refine ⟨?_, hget⟩
  unfold scanStringTurn
  simp only [hc, if_true, hget.buffer]

theorem scanStringTurn_end (h : scanStringTurn l = .inl (.valueString s, l'))
    (hl : At l rest buf) : ∃ r, rest = 0x22 :: r ∧ s = buf ∧ At l' r buf := by
  unfold scanStringTurn at h
  dsimp only at h
  split at h
  · cases h
  · next c hc =>
    obtain ⟨r, rfl, hget⟩ := hl.of_some hc
    split_ifs at h with hquote hslash hcontrol hascii
    · cases h
      exact ⟨r, hquote ▸ rfl, hget.buffer, hget⟩
    · obtain ⟨m, hm⟩ := scanEscape_token h
      cases hm
    · cases h
    · split at h
      · cases h
      · split at h <;> cases h

theorem scanStringTurn_token {a : Token × Lexer} (h : scanStringTurn l = .inl a) :
    (∃ m, a.1 = .parseError m) ∨ ∃ s, a.1 = .valueString s := by
  unfold scanStringTurn at h
  dsimp only at h
  split at h
  · exact .inl ⟨_, (congrArg Prod.fst (Sum.inl.inj h)).symm⟩
  · split_ifs at h
    · exact .inr ⟨_, (congrArg Prod.fst (Sum.inl.inj h)).symm⟩
    · exact .inl (scanEscape_token h)
    · exact .inl ⟨_, (congrArg Prod.fst (Sum.inl.inj h)).symm⟩
    · split at h
      · exact .inl ⟨_, (congrArg Prod.fst (Sum.inl.inj h)).symm⟩
      · split at h
        · cases h
        · exact .inl ⟨_, (congrArg Prod.fst (Sum.inl.inj h)).symm⟩

end Escapes

section Literals
variable {l l' : Lexer} {rest r buf t s : Bytes}

theorem scanString_complete (h : Characters t s) (hl : At l (t ++ 0x22 :: r) buf) :
    ∃ l', scanString l = (.valueString s, l') ∧ At l' r s := by
  have key : ∀ {l buf}, At l (t ++ 0x22 :: r) buf →
      ∃ l', scanStringLoop.run l = (.valueString (buf ++ s), l') ∧ At l' r (buf ++ s) := by
    clear hl
    induction h with
    | nil =>
      intro l buf hl
      obtain ⟨hturn, hl'⟩ := scanStringTurn_quote hl
      exact ⟨_, by rw [List.append_nil]; exact Loop.run_inl hturn, by simpa using hl'⟩
    | @cons t x ts xs h hs ih =>
      intro l buf hl
      obtain ⟨l1, hturn, hl1⟩ := scanStringTurn_complete h (by simpa using hl)
      obtain ⟨l', hrun, hl'⟩ := ih hl1
      exact ⟨l', by rw [Loop.run_inr hturn, hrun, List.append_assoc], by simpa using hl'⟩
  exact key hl.reset

theorem scanString_sound (h : scanString l = (.valueString s, l')) (hl : At l rest buf) :
    ∃ t r, rest = t ++ 0x22 :: r ∧ Characters t s ∧ At l' r s := by
  have key : ∀ {l}, scanStringLoop.run l = (.valueString s, l') → ∀ {rest buf}, At l rest buf →
      ∃ t x r, rest = t ++ 0x22 :: r ∧ Characters t x ∧ s = buf ++ x ∧ At l' r s := by
    clear h hl
    intro l h
    induction hm : l.rest.length using Nat.strong_induction_on generalizing l with
    | _ m ih =>
      intro rest buf hl
      cases hturn : scanStringTurn l with
      | inl a =>
        obtain rfl := (Loop.run_inl (L := scanStringLoop) hturn).symm.trans h
        obtain ⟨r, rfl, rfl, hl'⟩ := scanStringTurn_end hturn hl
        exact ⟨[], [], r, rfl, .nil, by simp, hl'⟩
      | inr l1 =>
        rw [Loop.run_inr (L := scanStringLoop) hturn] at h
        obtain ⟨t, x, r, rfl, hchar, hl1⟩ := scanStringTurn_sound hturn hl
        obtain ⟨ts, xs, r, rfl, hchars, rfl, hl'⟩ :=
          ih _ (hm ▸ scanStringTurn_falls hturn) h rfl hl1
        exact ⟨t ++ ts, x ++ xs, r, by simp, .cons hchar hchars, by simp, hl'⟩
  obtain ⟨t, x, r, rfl, hchars, rfl, hl'⟩ := key h hl.reset
  exact ⟨t, r, rfl, hchars, hl'⟩

/-- If it is no error, it is a string. -/
theorem scanString_token {token : Token} (h : scanString l = (token, l'))
    (htoken : ∀ m, token ≠ .parseError m) : ∃ s, token = .valueString s := by
  have key : (∃ m, (scanString l).1 = .parseError m) ∨ ∃ s, (scanString l).1 = .valueString s :=
    Loop.run_rule (L := scanStringLoop) (I := fun _ => True)
      (Q := fun a => (∃ m, a.1 = .parseError m) ∨ ∃ s, a.1 = .valueString s) trivial
      (fun _ _ _ hturn => scanStringTurn_token hturn) (fun _ _ _ _ => trivial)
  rw [h] at key
  exact key.resolve_left fun ⟨m, hm⟩ => htoken m hm

end Literals
end Rockets.Lexing
