import Rockets.JsonNumbers

set_option autoImplicit false

/-!
# Tokens as the lexer reads them

What the lexer makes of white space and of the text of a token, and which text it has read when
it returns a token.
-/
namespace Rockets.Lexing
open Grammar
open NumberState (Ends)

inductive Lexeme (strtod : Strtod) : Token → Bytes → Prop where
  | beginArray : Lexeme strtod .beginArray [0x5B]
  | endArray : Lexeme strtod .endArray [0x5D]
  | beginObject : Lexeme strtod .beginObject [0x7B]
  | endObject : Lexeme strtod .endObject [0x7D]
  | nameSeparator : Lexeme strtod .nameSeparator [0x3A]
  | valueSeparator : Lexeme strtod .valueSeparator [0x2C]
  | literalTrue : Lexeme strtod .literalTrue (ascii "true")
  | literalFalse : Lexeme strtod .literalFalse (ascii "false")
  | literalNull : Lexeme strtod .literalNull (ascii "null")
  | valueString {t s : Bytes} (h : Characters t s) :
    Lexeme strtod (.valueString s) (0x22 :: (t ++ [0x22]))
  | number (x : Numeral) : Lexeme strtod (numeralToken strtod x) x.text

/-- A token that the parser can go on with. -/
def Token.Proper (token : Token) : Prop :=
  token ≠ .endOfInput ∧ ∀ m, token ≠ .parseError m

section Blanks
variable {l : Lexer} {ws rest r buf : Bytes}

theorem isBlankChar_iff {b : Fin 256} : isBlankChar (some b) = true ↔ IsSpace b := by
  simp [isBlankChar, IsSpace, or_assoc]

/-- The character that ends a run of white space is the current one afterwards. -/
theorem skipBlanks_complete (hws : IsBlank ws) (hr : isBlankChar r.head? = false)
    (hl : At l (ws ++ r) buf) : (skipBlanksLoop.run l).current = r.head? ∧
      At (skipBlanksLoop.run l) r.tail buf := by
  induction ws generalizing l with
  | nil =>
    have hget : l.get.current = r.head? ∧ At l.get r.tail buf := by
      cases r with
      | nil => exact hl.nil
      | cons c r => exact hl.cons
    have hturn : skipBlanksTurn l = .inl l.get := by
      rw [skipBlanksTurn, hget.1, if_neg (by simp [hr])]
    rwa [Loop.run_inl (L := skipBlanksLoop) hturn]
  | cons b ws ih =>
    obtain ⟨hb, hws⟩ := List.forall_mem_cons.mp hws
    obtain ⟨hcur, hget⟩ := hl.cons
    have hturn : skipBlanksTurn l = .inr l.get := by
      rw [skipBlanksTurn, hcur, if_pos (isBlankChar_iff.mpr hb)]
    rw [Loop.run_inr (L := skipBlanksLoop) hturn]
    exact ih hws hget

theorem exists_blanks (rest : Bytes) :
    ∃ ws r, rest = ws ++ r ∧ IsBlank ws ∧ isBlankChar r.head? = false := by
  induction rest with
  | nil => exact ⟨[], [], rfl, by simp [IsBlank], rfl⟩
  | cons b rest ih =>
    cases hb : isBlankChar (some b) with
    | true =>
      obtain ⟨ws, r, rfl, hws, hr⟩ := ih
      exact ⟨b :: ws, r, rfl, List.forall_mem_cons.mpr ⟨isBlankChar_iff.mp hb, hws⟩, hr⟩
    | false => exact ⟨[], b :: rest, rfl, by simp [IsBlank], hb⟩

/-- How far white space goes is determined. -/
theorem skipBlanks_sound (hl : At l rest buf) : ∃ ws r, rest = ws ++ r ∧ IsBlank ws ∧
    isBlankChar r.head? = false ∧ (skipBlanksLoop.run l).current = r.head? ∧
    At (skipBlanksLoop.run l) r.tail buf := by
  obtain ⟨ws, r, rfl, hws, hr⟩ := exists_blanks rest
  exact ⟨ws, r, rfl, hws, hr, skipBlanks_complete hws hr hl⟩

end Blanks

section Literals
variable {l l' : Lexer} {rest r buf cs : Bytes} {token token' : Token}

theorem scanLiteral_complete (hl : At l (cs ++ r) buf) :
    ∃ l', scanLiteral cs token l = (token, l') ∧ At l' r buf := by
  induction cs generalizing l with
  | nil => exact ⟨l, rfl, hl⟩
  | cons c cs ih =>
    obtain ⟨hcur, hget⟩ := hl.cons
    obtain ⟨l', hrun, hl'⟩ := ih hget
    exact ⟨l', by rw [scanLiteral, if_pos hcur, hrun], hl'⟩

theorem scanLiteral_sound (h : scanLiteral cs token l = (token', l'))
    (htoken : ∀ m, token' ≠ .parseError m) (hl : At l rest buf) :
    token' = token ∧ ∃ r, rest = cs ++ r ∧ At l' r buf := by
  induction cs generalizing l rest with
  | nil =>
    obtain ⟨rfl, rfl⟩ := Prod.mk.inj h
    exact ⟨rfl, rest, rfl, hl⟩
  | cons c cs ih =>
    rw [scanLiteral] at h
    split_ifs at h with hc
    · obtain ⟨r, rfl, hget⟩ := hl.of_some hc
      obtain ⟨rfl, r, rfl, hl'⟩ := ih h hget
      exact ⟨rfl, r, rfl, hl'⟩
    · exact absurd (Prod.mk.inj h).1.symm (htoken _)

end Literals

section Tokens
variable {strtod : Strtod} {l l' : Lexer} {rest r buf x t : Bytes} {c : Fin 256} {token : Token}

theorem structural_lexeme (strtod : Strtod) (h : structural c = some token) : Lexeme strtod token [c] := by
  unfold structural at h
  split_ifs at h with h1 h2 h3 h4 h5 h6
  · cases h; exact h1 ▸ .beginArray
  · cases h; exact h2 ▸ .endArray
  · cases h; exact h3 ▸ .beginObject
  · cases h; exact h4 ▸ .endObject
  · cases h; exact h5 ▸ .nameSeparator
  · cases h; exact h6 ▸ .valueSeparator

theorem literal_lexeme (strtod : Strtod) {cs : Bytes} (h : literal c = some (cs, token)) :
    Lexeme strtod token (c :: cs) := by
  unfold literal at h
  split_ifs at h with h1 h2 h3
  · cases h; exact h1 ▸ .literalTrue
  · cases h; exact h2 ▸ .literalFalse
  · cases h; exact h3 ▸ .literalNull

/-- A numeral starts with a digit or a minus. -/
theorem text_head {y : Numeral} (h : y.text = c :: t) : c = 0x2D ∨ Http.isDigit c = true := by
  cases hneg : y.negative with
  | true => exact .inl ((negative_iff h).mp hneg)
  | false =>
    rw [text_eq, hneg] at h
    exact .inr (unsignedText_head h)

theorem ne_of_text_head (h : c = 0x2D ∨ Http.isDigit c = true) :
    structural c = none ∧ literal c = none ∧ c ≠ 0x22 ∧ isBlankChar (some c) = false := by
  revert c
  decide +kernel

theorem scanToken_complete (h : Lexeme strtod token (c :: t)) (hc : l.current = some c)
    (hl : At l (t ++ r) buf) (hr : (∃ y, token = numeralToken strtod y) → Ends r.head?) :
    ∃ l' buf', scanToken strtod l = (token, l') ∧ At l' r buf' := by
  simp only [scanToken, hc]
  generalize hx : c :: t = x at h
  cases h with
  | literalTrue =>
    obtain ⟨rfl, rfl⟩ := List.cons.inj hx
    exact (scanLiteral_complete hl).imp fun l' h => ⟨buf, h⟩
  | literalFalse =>
    obtain ⟨rfl, rfl⟩ := List.cons.inj hx
    exact (scanLiteral_complete hl).imp fun l' h => ⟨buf, h⟩
  | literalNull =>
    obtain ⟨rfl, rfl⟩ := List.cons.inj hx
    exact (scanLiteral_complete hl).imp fun l' h => ⟨buf, h⟩
  | @valueString t' s h =>
    obtain ⟨rfl, rfl⟩ := List.cons.inj hx
    exact (scanString_complete h (by simpa using hl)).imp fun l' h => ⟨s, h⟩
  | number y =>
    have hfirst := text_head hx.symm
    obtain ⟨hstructural, hliteral, hquote, -⟩ := ne_of_text_head hfirst
    simp only [hstructural, hliteral, hquote, if_false, if_pos hfirst]
    exact (scanNumber_complete hx.symm hl (hr ⟨y, rfl⟩)).imp fun l' h => ⟨y.text, h⟩
  | _ =>
    obtain ⟨rfl, rfl⟩ := List.cons.inj hx
    exact ⟨l, buf, rfl, hl⟩

theorem scanToken_sound (h : scanToken strtod l = (token, l')) (htoken : token.Proper)
    (hc : l.current = some c) (hl : At l rest buf) :
    ∃ t r buf', rest = t ++ r ∧ Lexeme strtod token (c :: t) ∧ At l' r buf' := by
  obtain ⟨hend, herror⟩ := htoken
  simp only [scanToken, hc] at h
  split at h
  · next htok =>
    cases h
    exact ⟨[], rest, buf, rfl, structural_lexeme _ htok, hl⟩
  split at h
  · next cs _ htok =>
    obtain ⟨rfl, r, rfl, hl'⟩ := scanLiteral_sound h herror hl
    exact ⟨cs, r, buf, rfl, literal_lexeme _ htok, hl'⟩
  split_ifs at h with hquote hnumber
  · subst hquote
    obtain ⟨s, rfl⟩ := scanString_token h herror
    obtain ⟨t, r, rfl, hchars, hl'⟩ := scanString_sound h hl
    exact ⟨t ++ [0x22], r, s, by simp, .valueString hchars, hl'⟩
  · obtain ⟨x, t, r, rfl, hx, rfl, hl'⟩ := scanNumber_sound h herror hnumber hl
    exact ⟨t, r, _, rfl, hx ▸ .number x, hl'⟩
  · exact absurd (Prod.mk.inj h).1.symm hend
  · exact absurd (Prod.mk.inj h).1.symm (herror _)

/-- No token starts with white space. -/
theorem Lexeme.head (h : Lexeme strtod token (c :: t)) : isBlankChar (some c) = false := by
  generalize hx : c :: t = x at h
  cases h with
  | number y => exact (ne_of_text_head (text_head hx.symm)).2.2.2
  | _ =>
    obtain ⟨rfl, -⟩ := List.cons.inj hx
    decide

theorem Lexeme.proper (h : Lexeme strtod token x) : token.Proper := by
  cases h with
  | number y =>
    have hjson := toJson_numeralToken strtod y
    refine ⟨fun h => ?_, fun m h => ?_⟩ <;> (rw [h] at hjson; cases hjson)
  | _ => simp [Token.Proper]

theorem Lexeme.ne_nil (h : Lexeme strtod token x) : x ≠ [] := by
  cases h with
  | number y =>
    rcases y.isInteger with hi | ⟨d, ds, hi, -⟩ <;> simp [Numeral.text, hi]
  | _ => simp [ascii]

end Tokens

section Scan
variable {strtod : Strtod} {l l' : Lexer} {ws rest r buf x : Bytes} {token : Token}

/-- A lexer after its first token: it looks for no byte order mark any more. -/
def Started (l : Lexer) : Prop := 1 ≤ l.position.charsReadTotal

theorem get_started (l : Lexer) : Started l.get := by
  unfold Started
  rw [Lexer.get_total]
  omega

theorem kept_started : Kept Started where
  get _ := get_started _
  buffer _ h := h
  reset h := h
  unget h := by
    unfold Started at h ⊢
    rwa [Lexer.unget_total, Lexer.get_total]

theorem Kept.scanString {P : Lexer → Prop} (k : Kept P) (h : P l) :
    P (Lexing.scanString l).2 :=
  Loop.run_rule (L := scanStringLoop) (I := P) (Q := fun a => P a.2) (k.reset h)
    (fun s _ hs hturn => by
      have ht := k.scanStringTurn (l := s) (k.get hs)
      rwa [show Lexing.scanStringTurn s = _ from hturn] at ht)
    (fun s _ hs hturn => by
      have ht := k.scanStringTurn (l := s) (k.get hs)
      rwa [show Lexing.scanStringTurn s = _ from hturn] at ht)

theorem Kept.scanNumber {P : Lexer → Prop} (k : Kept P) (c : Fin 256) (h : P l) :
    P (Lexing.scanNumber strtod c l).2 :=
  Loop.run_rule (L := scanNumberLoop strtod) (I := fun s => P s.lexer) (Q := fun a => P a.2)
    (k.add c (k.reset h))
    (fun s _ hs hturn => by
      have ht := k.scanNumberTurn strtod (s := s) hs
      rwa [show Lexing.scanNumberTurn strtod s = _ from hturn] at ht)
    (fun s _ hs hturn => by
      have ht := k.scanNumberTurn strtod (s := s) hs
      rwa [show Lexing.scanNumberTurn strtod s = _ from hturn] at ht)

theorem Kept.skipBlanks {P : Lexer → Prop} (k : Kept P) (h : P l.get) :
    P (skipBlanksLoop.run l) := by
  refine Loop.run_rule (L := skipBlanksLoop) (I := fun l => P l.get) (Q := P) h ?_ ?_
  · intro s a hs hturn
    change skipBlanksTurn s = _ at hturn
    unfold skipBlanksTurn at hturn
    split_ifs at hturn
    cases hturn
    exact hs
  · intro s t hs hturn
    change skipBlanksTurn s = _ at hturn
    unfold skipBlanksTurn at hturn
    split_ifs at hturn
    cases hturn
    exact k.get hs

theorem Kept.scanToken {P : Lexer → Prop} (k : Kept P) (h : P l) :
    P (Lexing.scanToken strtod l).2 := by
  unfold Lexing.scanToken
  split
  · exact h
  split
  · exact h
  split
  · exact k.scanLiteral _ h
  split_ifs
  · exact k.scanString h
  · exact k.scanNumber _ h
  · exact h
  · exact h

/-- A scan that looks for no byte order mark. -/
def scanNext (strtod : Strtod) (l : Lexer) : Token × Lexer :=
  scanToken strtod (skipBlanksLoop.run l)

theorem scan_of_started (h : Started l) : scan strtod l = scanNext strtod l :=
  if_neg (Nat.one_le_iff_ne_zero.mp h)

theorem scanNext_started (strtod : Strtod) (l : Lexer) : Started (scanNext strtod l).2 :=
  kept_started.scanToken (kept_started.skipBlanks (get_started l))

theorem scanNext_complete (hws : IsBlank ws) (h : Lexeme strtod token x)
    (hl : At l (ws ++ (x ++ r)) buf)
    (hr : (∃ y, token = numeralToken strtod y) → Ends r.head?) :
    ∃ l' buf', scanNext strtod l = (token, l') ∧ At l' r buf' := by
  obtain ⟨c, t, rfl⟩ := List.exists_cons_of_ne_nil h.ne_nil
  obtain ⟨hc, hl1⟩ := skipBlanks_complete (r := c :: (t ++ r)) hws h.head hl
  exact scanToken_complete h hc hl1 hr

theorem scanNext_sound (h : scanNext strtod l = (token, l')) (htoken : token.Proper)
    (hl : At l rest buf) : ∃ ws x r buf', rest = ws ++ (x ++ r) ∧ IsBlank ws ∧
      Lexeme strtod token x ∧ At l' r buf' := by
  obtain ⟨ws, r, rfl, hws, -, hc, hl1⟩ := skipBlanks_sound hl
  cases r with
  | nil =>
    unfold scanNext scanToken at h
    rw [hc] at h
    exact absurd (Prod.mk.inj h).1.symm htoken.1
  | cons c r =>
    obtain ⟨t, r, buf', rfl, hlexeme, hl'⟩ := scanToken_sound h htoken hc hl1
    exact ⟨ws, c :: t, r, buf', rfl, hws, hlexeme, hl'⟩

/-- The input has ended, or a null character comes next. -/
def AtEnd (rest : Bytes) : Prop := rest = [] ∨ rest.head? = some 0

theorem scanNext_end_complete (strtod : Strtod) (hws : IsBlank ws) (hr : AtEnd r) (hl : At l (ws ++ r) buf) :
    ∃ l', scanNext strtod l = (.endOfInput, l') := by
  have hblank : isBlankChar r.head? = false := by
    rcases hr with rfl | hr
    · rfl
    · rw [hr]
      rfl
  obtain ⟨hc, -⟩ := skipBlanks_complete hws hblank hl
  refine ⟨skipBlanksLoop.run l, ?_⟩
  unfold scanNext scanToken
  rw [hc]
  rcases hr with rfl | hr
  · rfl
  · rw [hr]
    rfl

theorem scanNext_end_sound (h : scanNext strtod l = (.endOfInput, l')) (hl : At l rest buf) :
    ∃ ws r, rest = ws ++ r ∧ IsBlank ws ∧ AtEnd r := by
  obtain ⟨ws, r, rfl, hws, -, hc, hl1⟩ := skipBlanks_sound hl
  refine ⟨ws, r, rfl, hws, ?_⟩
  cases r with
  | nil => exact .inl rfl
  | cons c r =>
    right
    simp only [scanNext, scanToken, hc, List.head?_cons] at h
    split at h
    · next htok =>
      have hlexeme := structural_lexeme (fun _ => 0) htok
      exact absurd (Prod.mk.inj h).1 hlexeme.proper.1
    split at h
    · next htok =>
      obtain ⟨heq, -⟩ := scanLiteral_sound h (by simp) hl1
      have hlexeme := literal_lexeme (fun _ => 0) htok
      exact absurd heq.symm hlexeme.proper.1
    split_ifs at h with hquote hnumber hnull
    · obtain ⟨s, hs⟩ := scanString_token h (by simp)
      cases hs
    · obtain ⟨x, -, -, -, -, hx, -⟩ := scanNumber_sound h (by simp) hnumber hl1
      exact absurd hx.symm (Lexeme.number x).proper.1
    · exact congrArg some hnull
    · cases h

theorem scan_of_bom {l l1 : Lexer} (hfresh : l.position.charsReadTotal = 0)
    (hbom : skipBom l = (true, l1)) : scan strtod l = scanNext strtod l1 := by
  rw [scan, if_pos hfresh, hbom]
  rfl

theorem scan_of_brokenBom (strtod : Strtod) {l l1 : Lexer} (hfresh : l.position.charsReadTotal = 0)
    (hbom : skipBom l = (false, l1)) : ∃ m, (scan strtod l).1 = .parseError m := by
  rw [scan, if_pos hfresh, hbom]
  exact ⟨_, rfl⟩

/-- The first scan skips a byte order mark; one that is not whole is an error. -/
theorem scan_first {text : Bytes} (h : scan strtod (.ofInput text) = (token, l'))
    (htoken : ∀ m, token ≠ .parseError m) : ∃ bom rest l1,
      (bom = [] ∨ bom = byteOrderMark) ∧ text = bom ++ rest ∧ At l1 rest [] ∧
      scanNext strtod l1 = (token, l') := by
  have hl := At.ofInput text
  rcases hbom : skipBom (.ofInput text) with ⟨whole, l1⟩
  obtain rfl : whole = true := by
    cases whole with
    | true => rfl
    | false =>
      obtain ⟨m, hm⟩ := scan_of_brokenBom strtod rfl hbom
      rw [h] at hm
      exact absurd hm (htoken m)
  rw [scan_of_bom rfl hbom] at h
  unfold skipBom at hbom
  split_ifs at hbom with h1 h2
  · obtain ⟨r1, hr1, hl1⟩ := hl.of_some h1
    obtain ⟨r2, hr2, hl2⟩ := hl1.of_some h2
    obtain ⟨h3, rfl⟩ := Prod.mk.inj hbom
    obtain ⟨r3, hr3, hl3⟩ := hl2.of_some (of_decide_eq_true h3)
    exact ⟨byteOrderMark, r3, _, .inr rfl, by rw [hr1, hr2, hr3]; rfl, hl3, h⟩
  · cases (Prod.mk.inj hbom).1
  · obtain ⟨-, rfl⟩ := Prod.mk.inj hbom
    exact ⟨[], text, _, .inl rfl, rfl, hl.unget, h⟩

theorem scan_first_complete (strtod : Strtod) {bom : Bytes} (text : Bytes)
    (hbom : bom = [] ∨ bom = byteOrderMark)
    (htext : bom = [] → text.head? ≠ some 0xEF) : ∃ l1, At l1 text [] ∧
      scan strtod (.ofInput (bom ++ text)) = scanNext strtod l1 := by
  have hl := At.ofInput (bom ++ text)
  rcases hbom with rfl | rfl
  · have h1 : (Lexer.ofInput text).get.current ≠ some 0xEF := htext rfl
    refine ⟨_, hl.unget, scan_of_bom rfl ?_⟩
    rw [List.nil_append, skipBom, if_neg h1]
  · obtain ⟨h1, hl1⟩ := hl.cons
    obtain ⟨h2, hl2⟩ := hl1.cons
    obtain ⟨h3, hl3⟩ := hl2.cons
    refine ⟨_, hl3, scan_of_bom rfl ?_⟩
    rw [skipBom, if_pos h1, if_pos h2, h3]
    rfl

end Scan
end Rockets.Lexing
