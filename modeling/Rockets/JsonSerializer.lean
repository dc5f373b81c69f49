import Rockets.JsonStrings

set_option autoImplicit false

/-!
# Strings as the serializer writes them

`dump_escaped` with its buffer of 512 characters; an access outside of the buffer is an outcome
of its own. Decoding errors are treated strictly, as Rockets asks.
-/
namespace Rockets.Serializer
open Lexing (upperHexByte)

inductive Fault where
  | typeError (what : Bytes)
  | outOfBounds
  deriving DecidableEq

def typeError316 (what : Bytes) : Fault :=
  .typeError (ascii "[json.exception.type_error.316] " ++ what)

def hexDigit (n : ℕ) : Fin 256 := Fin.ofNat 256 (if n < 10 then 0x30 + n else 0x57 + n)

/-- Four hexadecimal digits after `\u`. -/
def unicodeEscape (n : ℕ) : Bytes := [0x5C, 0x75] ++
  [hexDigit (n / 0x1000 % 0x10), hexDigit (n / 0x100 % 0x10), hexDigit (n / 0x10 % 0x10),
    hexDigit (n % 0x10)]

/-- The characters for a code point whose last byte is `byte`, and how many are written to
the buffer: `snprintf` ends its text with a null character. -/
def escape (ensureAscii : Bool) (codepoint : ℕ) (byte : Fin 256) : Bytes × ℕ :=
  if codepoint = 0x08 then ([0x5C, 0x62], 2)
  else if codepoint = 0x09 then ([0x5C, 0x74], 2)
  else if codepoint = 0x0A then ([0x5C, 0x6E], 2)
  else if codepoint = 0x0C then ([0x5C, 0x66], 2)
  else if codepoint = 0x0D then ([0x5C, 0x72], 2)
  else if codepoint = 0x22 then ([0x5C, 0x22], 2)
  else if codepoint = 0x5C then ([0x5C, 0x5C], 2)
  else if codepoint ≤ 0x1F ∨ (ensureAscii = true ∧ 0x7F ≤ codepoint) then
    if codepoint ≤ 0xFFFF then (unicodeEscape codepoint, 7)
    else (unicodeEscape (0xD7C0 + codepoint >>> 10) ++
      unicodeEscape (0xDC00 + (codepoint &&& 0x3FF)), 13)
  else ([byte], 1)

/-- A string on its way out: the decoder, the used part of the string buffer and what the
output adapter has got. -/
structure Escaping where
  state : ℕ
  codepoint : ℕ
  stringBuffer : Bytes
  out : Bytes

namespace Escaping
variable (ensureAscii : Bool) (e : Escaping)

def put (chars : Bytes) (written : ℕ) : Except Fault Escaping :=
  if e.stringBuffer.length + written ≤ 512 then
    .ok { e with stringBuffer := e.stringBuffer ++ chars }
  else .error .outOfBounds

/-- Written out when there is no room left for the longest escape. -/
def writeFull : Escaping :=
  if 512 - e.stringBuffer.length < 13 then
    { e with out := e.out ++ e.stringBuffer, stringBuffer := [] }
  else e

/-- The byte at index `i`. -/
def turn (i : ℕ) (byte : Fin 256) : Except Fault Escaping :=
  let d := decode byte e.state e.codepoint
  let e := { e with state := d.1, codepoint := d.2 }
  if d.1 = utf8Accept then
    let chars := escape ensureAscii d.2 byte
    match e.put chars.1 chars.2 with
    | .error f => .error f
    | .ok e => .ok e.writeFull
  else if d.1 = utf8Reject then
    .error (typeError316 (ascii "invalid UTF-8 byte at index " ++ decimal i ++ ascii ": 0x" ++
      upperHexByte byte))
  else if ensureAscii then .ok e
  else e.put [byte] 1

def run : ℕ → Bytes → Escaping → Except Fault Escaping
  | _, [], e => .ok e
  | i, byte :: s, e =>
    match e.turn ensureAscii i byte with
    | .error f => .error f
    | .ok e => run (i + 1) s e

end Escaping

/-- What the output adapter has got afterwards. The decoder's first code point is read by no
one. -/
def dumpEscaped (ensureAscii : Bool) (s out : Bytes) : Except Fault Bytes :=
  match Escaping.run ensureAscii 0 s ⟨utf8Accept, 0, [], out⟩ with
  | .error f => .error f
  | .ok e =>
    if e.state = utf8Accept then .ok (e.out ++ e.stringBuffer)
    else .error (typeError316 (ascii "incomplete UTF-8 string; last byte: 0x" ++
      upperHexByte (s.getLastD 0)))

section Escapes
open Grammar
variable {n : ℕ} {x : Bytes} {ensureAscii : Bool}

theorem hexValue_hexDigit (h : n < 16) : hexValue (hexDigit n) = some n := by
  revert n
  decide +kernel

theorem fourHex_unicodeEscape (h : n < 0x10000) : ∃ hex,
    unicodeEscape n = [0x5C, 0x75] ++ hex ∧ FourHex hex n := by
  have hn : n / 0x1000 % 0x10 * 0x1000 + n / 0x100 % 0x10 * 0x100 + n / 0x10 % 0x10 * 0x10 +
    n % 0x10 = n := by omega
  have hhex := FourHex.intro (hexValue_hexDigit (n := n / 0x1000 % 0x10) (by omega))
    (hexValue_hexDigit (n := n / 0x100 % 0x10) (by omega))
    (hexValue_hexDigit (n := n / 0x10 % 0x10) (by omega))
    (hexValue_hexDigit (n := n % 0x10) (by omega))
  rw [hn] at hhex
  exact ⟨_, rfl, hhex⟩

/-- The bytes of a code point that are in the buffer before its last one. -/
def pending (ensureAscii : Bool) (x : Bytes) : Bytes := if ensureAscii then [] else x.dropLast

theorem encodes_ascii (h : Utf8.Encodes n x) (hn : n < 0x80) :
    ∃ a : Fin 256, a.val = n ∧ x = [a] := by
  cases h with
  | one ha => exact ⟨_, rfl, rfl⟩
  | two ha hb => unfold Utf8.Continues at hb; omega
  | three ha hb hc hshort _ => unfold Utf8.Continues at hb hc; omega
  | four ha hb hc hd hshort _ => unfold Utf8.Continues at hb hc hd; omega

theorem pending_ascii (b : Fin 256) : pending ensureAscii [b] = [] := by
  unfold pending
  split_ifs <;> rfl

theorem character_short {e : Fin 256} {m : ℕ} (h : Utf8.Encodes m x) (hm : m < 0x80)
    (he : shortEscape e = some (Fin.ofNat 256 m)) :
    Character (pending ensureAscii x ++ [0x5C, e]) x := by
  obtain ⟨a, rfl, rfl⟩ := encodes_ascii h hm
  rw [Fin.ofNat_val_eq_self] at he
  rw [pending_ascii]
  exact .short he

/-- Every code point is written as one character of a string literal. -/
theorem character_escape {b : Fin 256} (h : Utf8.Encodes n x) (hb : x.getLast? = some b) :
    Character (pending ensureAscii x ++ (escape ensureAscii n b).1) x := by
  have hscalar := h.scalar
  unfold escape
  split_ifs with h1 h2 h3 h4 h5 h6 h7 h8 h9
  · exact character_short h (by omega) (by rw [h1]; rfl)
  · exact character_short h (by omega) (by rw [h2]; rfl)
  · exact character_short h (by omega) (by rw [h3]; rfl)
  · exact character_short h (by omega) (by rw [h4]; rfl)
  · exact character_short h (by omega) (by rw [h5]; rfl)
  · exact character_short h (by omega) (by rw [h6]; rfl)
  · exact character_short h (by omega) (by rw [h7]; rfl)
  · have hpending : pending ensureAscii x = [] := by
      rcases h8 with h8 | ⟨rfl, -⟩
      · obtain ⟨a, -, rfl⟩ := encodes_ascii h (by omega)
        exact pending_ascii a
      · rfl
    obtain ⟨hex, heq, hhex⟩ := fourHex_unicodeEscape (n := n) (by omega)
    rw [hpending, heq]
    exact .unicode hhex h
  · have hascii : ensureAscii = true := by
      rcases h8 with h8 | ⟨h8, -⟩
      · omega
      · exact h8
    have hpending : pending ensureAscii x = [] := by rw [hascii]; rfl
    have hlt : n < 0x110000 := by
      rcases hscalar with hscalar | hscalar <;> omega
    have hhigh : n >>> 10 = n / 0x400 := Nat.shiftRight_eq_div_pow n 10
    have hlow : n &&& 0x3FF = n % 0x400 := Nat.and_two_pow_sub_one_eq_mod n 10
    obtain ⟨hex, heq, hhex⟩ := fourHex_unicodeEscape (n := 0xD7C0 + n >>> 10) (by omega)
    obtain ⟨hex', heq', hhex'⟩ := fourHex_unicodeEscape (n := 0xDC00 + (n &&& 0x3FF)) (by omega)
    have hn : (0xD7C0 + n >>> 10 - 0xD800) * 0x400 + (0xDC00 + (n &&& 0x3FF) - 0xDC00) +
      0x10000 = n := by omega
    rw [hpending, heq, heq']
    exact .pair hhex (by omega) hhex' (by omega) (hn.symm ▸ h)
  · have hwhole : pending ensureAscii x ++ [b] = x := by
      cases hascii : ensureAscii with
      | true =>
        have hlt : n < 0x7F := not_le.mp fun hle => h8 (.inr ⟨hascii, hle⟩)
        obtain ⟨a, -, rfl⟩ := encodes_ascii h (by omega)
        obtain rfl := Option.some.inj hb
        rfl
      | false => exact List.dropLast_append_getLast? b hb
    rw [hwhole]
    exact .plain h (by omega) h6 h7

end Escapes
section CodePoints
variable {q codep n : ℕ} {b : Fin 256} {x r s : Bytes} {ns : List ℕ}

theorem codePoints_nil (h : codePoints utf8Accept codep s = some []) : s = [] := by
  rw [codePoints_accept codep 0] at h
  rcases codePoints_split.mp h with ⟨rfl, -⟩ | ⟨n, x, r, ms, -, -, hns, -⟩
  · rfl
  · cases hns

theorem encodes_of_codePoints (h : codePoints utf8Accept codep x = some [n]) :
    Utf8.Encodes n x := by
  rw [codePoints_accept codep 0] at h
  rcases codePoints_split.mp h with ⟨-, hns⟩ | ⟨n', x, r, ms, hx, rfl, hns, hr⟩
  · cases hns
  · obtain ⟨rfl, rfl⟩ := List.cons.inj hns
    obtain rfl := codePoints_nil hr
    rwa [List.append_nil]

theorem codePoints_append (h : codePoints q codep x = some [n]) :
    codePoints q codep (x ++ r) = (codePoints utf8Accept 0 r).map (n :: ·) := by
  induction x generalizing q codep with
  | nil =>
    simp only [codePoints] at h
    split_ifs at h
    cases h
  | cons b x ih =>
    simp only [codePoints, List.cons_append] at h ⊢
    split_ifs at h ⊢ with h0 h1
    · obtain ⟨ms, hms, hns⟩ := Option.map_eq_some_iff.mp h
      obtain ⟨rfl, rfl⟩ := List.cons.inj hns
      rw [h0] at hms
      obtain rfl := codePoints_nil hms
      rw [h0, List.nil_append, codePoints_accept _ 0]
    · exact ih h

theorem utf8_append (h : Utf8.Encodes n x) : utf8 (x ++ r) = utf8 r := by
  have hx : codePoints utf8Accept 0 x = some [n] :=
    codePoints_split.mpr (.inr ⟨n, x, [], [], h, (List.append_nil x).symm, rfl, rfl⟩)
  rw [← codePoints_isSome, ← codePoints_isSome, codePoints_append hx, Option.isSome_map]

/-- How many bytes a state waits for. -/
def waits (q : ℕ) : ℕ := if q = 0 then 0 else if q = 2 then 1 else if q ≤ 5 then 2 else 3

theorem waits_le (q : ℕ) : waits q ≤ 3 := by
  unfold waits
  split_ifs <;> omega

theorem successor_le (hq : q ≤ 8) : successor q b ≤ 8 := by
  have htable : ∀ i < 144, utf8d.getD (256 + i) 0 ≤ 8 := by decide +kernel
  have hb := (byteType_spec b).1
  have hindex : 256 + q * 16 + byteType b = 256 + (q * 16 + byteType b) := by omega
  rw [successor, hindex]
  exact htable _ (by omega)

theorem waits_successor (hq : q ≤ 8) (hq0 : q ≠ utf8Accept) (hq1 : q ≠ utf8Reject)
    (h0 : successor q b ≠ utf8Accept) (h1 : successor q b ≠ utf8Reject) :
    waits (successor q b) + 1 = waits q := by
  unfold utf8Accept at hq0
  unfold utf8Reject at hq1
  obtain rfl | rfl | rfl | rfl | rfl | rfl | rfl :
    q = 2 ∨ q = 3 ∨ q = 4 ∨ q = 5 ∨ q = 6 ∨ q = 7 ∨ q = 8 := by omega
  · rw [successor_two] at h0 h1
    split_ifs at h0 h1 <;> contradiction
  all_goals
    simp only [successor_three, successor_E0, successor_ED, successor_F0, successor_four,
      successor_F4] at h1 ⊢
    split_ifs at h1 ⊢
    · rfl
    · contradiction

end CodePoints
section Strings
variable {ensureAscii : Bool} {e : Escaping} {i n : ℕ} {b : Fin 256} {x r s out : Bytes}

namespace Escaping

/-- Bytes of one code point go to the buffer until the last one comes. -/
theorem run_codePoint (ensureAscii : Bool) (i : ℕ) (r : Bytes)
    (h : codePoints e.state e.codepoint x = some [n])
    (hb : x.getLast? = some b) (hroom : e.stringBuffer.length + (pending ensureAscii x).length +
      (escape ensureAscii n b).2 ≤ 512) :
    run ensureAscii i (x ++ r) e = run ensureAscii (i + x.length) r
      (writeFull ⟨utf8Accept, n, e.stringBuffer ++
        (pending ensureAscii x ++ (escape ensureAscii n b).1), e.out⟩) := by
  induction x generalizing e i with
  | nil => cases hb
  | cons c x ih =>
    simp only [codePoints] at h
    split_ifs at h with h0 h1
    · obtain ⟨ms, hms, hns⟩ := Option.map_eq_some_iff.mp h
      obtain ⟨rfl, rfl⟩ := List.cons.inj hns
      rw [h0] at hms
      obtain rfl := codePoints_nil hms
      obtain rfl : c = b := Option.some.inj hb
      rw [pending_ascii, List.length_nil, Nat.add_zero] at hroom
      rw [List.singleton_append, run, turn]
      simp only [h0, if_true, put, if_pos hroom, pending_ascii, List.nil_append,
        List.length_singleton]
    · have hx : x ≠ [] := by
        rintro rfl
        simp only [codePoints, h0, if_false] at h
        cases h
      rw [List.getLast?_cons_of_ne_nil hx] at hb
      have hpending : pending ensureAscii (c :: x) =
          (if ensureAscii then [] else [c]) ++ pending ensureAscii x := by
        unfold pending
        split_ifs
        · rfl
        · rw [List.dropLast_cons_of_ne_nil hx, List.singleton_append]
      rw [hpending] at hroom ⊢
      have hturn : e.turn ensureAscii i c = .ok ⟨(decode c e.state e.codepoint).1,
          (decode c e.state e.codepoint).2,
          e.stringBuffer ++ (if ensureAscii then [] else [c]), e.out⟩ := by
        simp only [turn, if_neg h0, if_neg h1]
        split_ifs at hroom ⊢
        · rw [List.append_nil]
        · simp only [List.length_append, List.length_singleton] at hroom
          rw [put, if_pos (by simp only; omega)]
      rw [List.cons_append, run, hturn]
      simp only
      rw [ih _ h hb (by simp only [List.length_append] at hroom ⊢; omega), List.length_cons,
        Nat.add_assoc i 1, Nat.add_comm 1, List.append_assoc, List.append_assoc]

/-- The run ends with an error, or in the middle of a code point. -/
def Fails (result : Except Fault Escaping) : Prop :=
  (∃ what, result = .error (.typeError what)) ∨
    ∃ e, result = .ok e ∧ e.state ≠ utf8Accept

/-- Between two bytes there is room for the longest escape, or for what is left of the code
point. -/
def Room (ensureAscii : Bool) (e : Escaping) : Prop :=
  e.stringBuffer.length ≤ 499 ∨ ensureAscii = false ∧ e.state ≠ utf8Accept ∧
    e.stringBuffer.length + waits e.state ≤ 503

theorem turn_goesOn {c : Fin 256} (hq : e.state ≤ 8) (hq1 : e.state ≠ utf8Reject)
    (hroom : Room ensureAscii e) (h0 : successor e.state c ≠ utf8Accept)
    (h1 : successor e.state c ≠ utf8Reject) :
    ∃ e', (∀ i, e.turn ensureAscii i c = .ok e') ∧ e'.state = successor e.state c ∧
      e'.codepoint = (decode c e.state e.codepoint).2 ∧ Room ensureAscii e' := by
  have hdecode : (decode c e.state e.codepoint).1 = successor e.state c := rfl
  simp only [turn, hdecode, if_neg h0, if_neg h1]
  cases hascii : ensureAscii with
  | true =>
    refine ⟨_, fun i => rfl, rfl, rfl, .inl ?_⟩
    rcases hroom with hlen | ⟨hfalse, -⟩
    · exact hlen
    · exact absurd (hascii.symm.trans hfalse) (by simp)
  | false =>
    have hwaits := waits_le (successor e.state c)
    have hlen : e.stringBuffer.length + 1 + waits (successor e.state c) ≤ 503 := by
      rcases hroom with hlen | ⟨-, hq0, hlen⟩
      · omega
      · have hstep := waits_successor hq hq0 hq1 h0 h1
        omega
    refine ⟨⟨successor e.state c, (decode c e.state e.codepoint).2, e.stringBuffer ++ [c], e.out⟩,
      fun i => ?_, rfl, rfl, .inr ⟨rfl, h0, ?_⟩⟩
    · rw [if_neg (by simp), put, if_pos (by simp only; omega)]
    · simpa using hlen

/-- A whole code point comes next, or none does. -/
theorem run_cases (ensureAscii : Bool) (s : Bytes) (hq : e.state ≤ 8) (hq1 : e.state ≠ utf8Reject) (hroom : Room ensureAscii e)
    (hs : e.state = utf8Accept → s ≠ []) :
    (∃ x r n, s = x ++ r ∧ codePoints e.state e.codepoint x = some [n]) ∨
    (codePoints e.state e.codepoint s = none ∧ ∀ i, Fails (run ensureAscii i s e)) := by
  induction s generalizing e with
  | nil =>
    have h0 : e.state ≠ utf8Accept := fun h => hs h rfl
    exact .inr ⟨if_neg h0, fun i => .inr ⟨e, rfl, h0⟩⟩
  | cons c s ih =>
    have hdecode : (decode c e.state e.codepoint).1 = successor e.state c := rfl
    by_cases h0 : successor e.state c = utf8Accept
    · left
      refine ⟨[c], s, (decode c e.state e.codepoint).2, rfl, ?_⟩
      rw [codePoints_found h0]
      rfl
    by_cases h1 : successor e.state c = utf8Reject
    · refine .inr ⟨codePoints_reject h1, fun i => .inl ?_⟩
      rw [run, turn]
      simp only [hdecode, if_neg h0, if_pos h1]
      exact ⟨_, rfl⟩
    obtain ⟨e', hturn, hstate, hcodepoint, hroom'⟩ := turn_goesOn hq hq1 hroom h0 h1
    have hgoes : ∀ x, codePoints e.state e.codepoint (c :: x) =
        codePoints e'.state e'.codepoint x := by
      intro x
      rw [codePoints_goesOn h0 h1, hstate, hcodepoint, hdecode]
    rcases ih (e := e') (hstate ▸ successor_le hq) (hstate ▸ h1) hroom'
      (fun h => absurd (hstate.symm.trans h) h0) with ⟨x, r, n, rfl, hx⟩ | ⟨hnone, hfails⟩
    · exact .inl ⟨c :: x, r, n, rfl, (hgoes x).trans hx⟩
    · refine .inr ⟨(hgoes s).trans hnone, fun i => ?_⟩
      rw [run, hturn]
      exact hfails (i + 1)

theorem writeFull_length (e : Escaping) : e.writeFull.stringBuffer.length ≤ 499 := by
  unfold writeFull
  split_ifs
  · exact Nat.zero_le _
  · omega

theorem writeFull_out (e : Escaping) :
    e.writeFull.out ++ e.writeFull.stringBuffer = e.out ++ e.stringBuffer := by
  unfold writeFull
  split_ifs
  · exact List.append_nil _
  · rfl

theorem writeFull_state (e : Escaping) : e.writeFull.state = e.state := by
  unfold writeFull
  split_ifs <;> rfl

theorem escape_length (ensureAscii : Bool) (n : ℕ) (b : Fin 256) :
    (escape ensureAscii n b).2 ≤ 13 := by
  unfold escape
  split_ifs <;> simp

/-- A code point fits after its pending bytes. -/
theorem escape_room (ensureAscii : Bool) (b : Fin 256) (h : Utf8.Encodes n x) :
    (pending ensureAscii x).length + (escape ensureAscii n b).2 ≤ 13 := by
  cases hascii : ensureAscii with
  | true =>
    have hle := escape_length true n b
    rw [show pending true x = [] from rfl, List.length_nil]
    omega
  | false =>
    have hle := escape_length false n b
    by_cases hn : n < 0x80
    · obtain ⟨a, -, rfl⟩ := encodes_ascii h hn
      rw [pending_ascii, List.length_nil]
      omega
    · have hone : (escape false n b).2 = 1 := by
        unfold escape
        rw [if_neg (by omega), if_neg (by omega), if_neg (by omega), if_neg (by omega),
          if_neg (by omega), if_neg (by omega), if_neg (by omega), if_neg (by simp; omega)]
      have hlen : x.length ≤ 4 := by cases h <;> simp
      rw [hone, show pending false x = x.dropLast from rfl, List.length_dropLast]
      omega

/-- From between two code points: a well-formed string is written as the characters of a literal,
another one is an error. -/
theorem run_spec (ensureAscii : Bool) (i : ℕ) (hstate : e.state = utf8Accept) (hlen : e.stringBuffer.length ≤ 499) :
    (utf8 s = true → ∃ t e', run ensureAscii i s e = .ok e' ∧ e'.state = utf8Accept ∧
      e'.out ++ e'.stringBuffer = e.out ++ e.stringBuffer ++ t ∧ Grammar.Characters t s) ∧
    (utf8 s = false → Fails (run ensureAscii i s e)) := by
  induction hk : s.length using Nat.strong_induction_on generalizing s e i with
  | _ k ih =>
    cases s with
    | nil =>
      refine ⟨fun _ => ⟨[], e, rfl, hstate, (List.append_nil _).symm, .nil⟩, fun h => ?_⟩
      cases h
    | cons c s =>
      have hcases := run_cases ensureAscii (c :: s) (by rw [hstate]; decide)
        (by rw [hstate]; decide) (.inl hlen) (fun _ => by simp)
      rw [hstate] at hcases
      have hutf8 := codePoints_isSome (c :: s)
      rcases hcases with ⟨x, r, n, heq, hx⟩ | ⟨hnone, hfails⟩
      · have henc := encodes_of_codePoints hx
        obtain ⟨b, hb⟩ : ∃ b, x.getLast? = some b :=
          Option.isSome_iff_exists.mp (by simpa using List.ne_nil_of_length_pos henc.length_pos)
        have hroom := escape_room ensureAscii b henc
        have hrun := run_codePoint ensureAscii i r
          (hstate.symm ▸ hx) hb (by omega)
        have hlt : r.length < k := by
          rw [← hk, heq, List.length_append]
          exact Nat.lt_add_of_pos_left henc.length_pos
        obtain ⟨hok, hfail⟩ := ih _ hlt (s := r) (i := i + x.length)
          (e := writeFull ⟨utf8Accept, n, e.stringBuffer ++
            (pending ensureAscii x ++ (escape ensureAscii n b).1), e.out⟩)
          (writeFull_state _) (writeFull_length _) rfl
        rw [heq, hrun, utf8_append henc]
        refine ⟨fun h => ?_, hfail⟩
        obtain ⟨t, e', hrun', hstate', hout, ht⟩ := hok h
        refine ⟨pending ensureAscii x ++ (escape ensureAscii n b).1 ++ t, e', hrun', hstate', ?_,
          .cons (character_escape henc hb) ht⟩
        rw [hout, writeFull_out]
        simp only [List.append_assoc]
      · rw [codePoints_accept _ 0] at hnone
        rw [hnone] at hutf8
        rw [← hutf8]
        exact ⟨fun h => (by cases h), fun _ => hfails i⟩

end Escaping

theorem dumpEscaped_ok (ensureAscii : Bool) (out : Bytes) (h : utf8 s = true) :
    ∃ t, dumpEscaped ensureAscii s out = .ok (out ++ t) ∧ Grammar.Characters t s := by
  obtain ⟨t, e, hrun, hstate, hout, ht⟩ := (Escaping.run_spec ensureAscii 0
    (e := ⟨utf8Accept, 0, [], out⟩) rfl (Nat.zero_le _)).1 h
  refine ⟨t, ?_, ht⟩
  rw [dumpEscaped, hrun]
  simp only [if_pos hstate, hout, List.append_nil]

theorem dumpEscaped_error (ensureAscii : Bool) (out : Bytes) (h : utf8 s = false) :
    ∃ what, dumpEscaped ensureAscii s out = .error (.typeError what) := by
  rcases (Escaping.run_spec ensureAscii 0
    (e := ⟨utf8Accept, 0, [], out⟩) rfl (Nat.zero_le _)).2 h with ⟨what, hrun⟩ | ⟨e, hrun, hstate⟩
  · exact ⟨what, by rw [dumpEscaped, hrun]⟩
  · rw [dumpEscaped, hrun]
    simp only [if_neg hstate]
    exact ⟨_, rfl⟩

/-- A string is written if it encodes a text, and only then; what is written is read as the string,
and the buffer is big enough either way. -/
theorem dumpEscaped_decides (ensureAscii : Bool) (s out : Bytes) :
    ((∃ r, dumpEscaped ensureAscii s out = .ok r) ↔ ∃ cs : List Char, s = Utf8.encode cs) ∧
      (∀ r, dumpEscaped ensureAscii s out = .ok r → ∃ t, r = out ++ t ∧ Grammar.Characters t s) ∧
      dumpEscaped ensureAscii s out ≠ .error .outOfBounds := by
  rw [← utf8_iff]
  cases h : utf8 s with
  | true =>
    obtain ⟨t, hok, ht⟩ := dumpEscaped_ok ensureAscii out h
    rw [hok]
    exact ⟨⟨fun _ => rfl, fun _ => ⟨_, rfl⟩⟩, fun r hr => ⟨t, (Except.ok.inj hr).symm, ht⟩, nofun⟩
  | false =>
    obtain ⟨what, herror⟩ := dumpEscaped_error ensureAscii out h
    rw [herror]
    refine ⟨⟨fun ⟨r, hr⟩ => ?_, nofun⟩, fun r hr => ?_, fun hout => ?_⟩
    · cases hr
    · cases hr
    · cases hout

end Strings
end Rockets.Serializer
