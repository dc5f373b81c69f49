import Rockets.JsonDump

set_option autoImplicit false

/-!
# The JSON library as Rockets relies on it

What the parser returns can be written again, and what is written is well-formed and stays as it
is. The library with this parser is one that stands for every text by the value it was written
from.
-/
namespace Rockets

namespace Grammar
open Json Lexing
variable {strtod : Strtod} {t s x : Bytes} {j : Json}

section Contents

theorem Character.encodes (h : Character t x) : ∃ n, Utf8.Encodes n x := by
  cases h with
  | plain h | unicode _ h | pair _ _ _ _ h => exact ⟨_, h⟩
  | @short e b h =>
    have hb : b.val < 0x80 := by
      unfold shortEscape at h
      split_ifs at h <;> cases h <;> decide
    exact ⟨_, .one hb⟩

theorem Characters.utf8 (h : Characters t s) : utf8 s = true := by
  induction h with
  | nil => rfl
  | cons h _ ih =>
    obtain ⟨n, hn⟩ := h.encodes
    rw [Serializer.utf8_append hn]
    exact ih

theorem Key.utf8 {k key : Bytes} (h : Key k key) : Rockets.utf8 key = true := by
  cases h with
  | intro _ h _ => exact h.utf8

variable {float : ℕ → Prop} {js : List Json} {ms : List (Bytes × Json)} {k : Bytes}

theorem storableElements_append (hjs : StorableElements float js) (hj : j.Storable float) :
    StorableElements float (js ++ [j]) := by
  induction js with
  | nil => exact ⟨hj, trivial⟩
  | cons i js ih => exact ⟨hjs.1, ih hjs.2⟩

theorem storableMembers_append (hms : StorableMembers float ms) (hj : j.Storable float) :
    StorableMembers float (ms ++ [(k, j)]) := by
  induction ms with
  | nil => exact ⟨hj, trivial⟩
  | cons m ms ih => exact ⟨hms.1, ih hms.2⟩

theorem storableMembers_set (hms : StorableMembers float ms) (hj : j.Storable float) :
    StorableMembers float (Entries.set k j ms) := by
  induction ms with
  | nil => exact ⟨hj, trivial⟩
  | cons m ms ih =>
    rw [Entries.set]
    split_ifs
    · exact ⟨hj, hms⟩
    · exact ⟨hj, hms.2⟩
    · exact ⟨hms.1, ih hms.2⟩

theorem storable_ofMembers (hms : StorableMembers float ms) :
    (Json.ofMembers ms).Storable float := by
  have hfold : ∀ es, Entries.Sorted es ∧ StorableMembers float es →
      Entries.Sorted (ms.foldl (fun es m => Entries.set m.1 m.2 es) es) ∧
      StorableMembers float (ms.foldl (fun es m => Entries.set m.1 m.2 es) es) := by
    induction ms with
    | nil => exact fun es hes => hes
    | cons m ms ih =>
      exact fun es hes => ih hms.2 _ ⟨hes.1.set, storableMembers_set hes.2 hms.1⟩
  exact hfold [] ⟨.nil, trivial⟩

theorem utf8Members_append (ms : List (Bytes × Json)) (hms : utf8Members ms = true) (hk : Rockets.utf8 k = true)
    (hj : j.utf8 = true) : utf8Members (ms ++ [(k, j)]) = true := by
  induction ms with
  | nil => simp [utf8Members, hk, hj]
  | cons m ms ih =>
    simp only [utf8Members, Bool.and_eq_true] at hms
    simp only [List.cons_append, utf8Members, hms.1.1, hms.1.2, ih hms.2, Bool.and_self]

theorem collapseElements_append (js : List Json) (j : Json) :
    collapseElements (js ++ [j]) = collapseElements js ++ [collapse j] := by
  induction js with
  | nil => rfl
  | cons i js ih => simp only [List.cons_append, collapseElements, ih]

theorem collapseMembers_append (ms : List (Bytes × Json)) (k : Bytes) (j : Json) :
    collapseMembers (ms ++ [(k, j)]) = collapseMembers ms ++ [(k, collapse j)] := by
  induction ms with
  | nil => rfl
  | cons m ms ih => simp only [List.cons_append, collapseMembers, ih]

/-- What a parsed value is made of. -/
abbrev Sound (j : Json) : Prop := j.utf8 = true ∧ j.Storable fun bits => isFinite bits = true

theorem Scalar.sound (h : Scalar strtod t j) : Sound (collapse j) := by
  cases h with
  | string h => exact ⟨h.utf8, trivial⟩
  | number x finite =>
    unfold Numeral.value at finite ⊢
    split_ifs at finite ⊢ with h1 h2 h3 h4
    · exact ⟨rfl, finite _ rfl⟩
    · refine ⟨rfl, ?_⟩
      rw [collapse, Storable]
      · omega
      all_goals simp
    · exact ⟨rfl, finite _ rfl⟩
    · exact ⟨rfl, h4⟩
    · exact ⟨rfl, finite _ rfl⟩
  | _ => exact ⟨rfl, trivial⟩

mutual

theorem Value.sound {t : Bytes} {j : Json} : Value strtod t j → Sound (collapse j)
  | .scalar h => h.sound
  | .emptyArray _ => ⟨rfl, trivial⟩
  | .array h => by
    have hjs := h.sound
    simpa only [Sound, collapse, Json.utf8, Storable] using hjs
  | .emptyObject _ => ⟨rfl, .nil, trivial⟩
  | .object h => by
    have hms := h.sound
    rw [collapse]
    exact ⟨utf8_ofMembers hms.1, storable_ofMembers hms.2⟩

theorem Elements.sound {t : Bytes} {js : List Json} : Elements strtod t js →
    utf8Elements (collapseElements js) = true ∧
      StorableElements (fun bits => isFinite bits = true) (collapseElements js)
  | .one _ h _ => by
    have hj := h.sound
    have hutf8 : utf8Elements ([] ++ [collapse _]) = true := utf8Elements_append rfl hj.1
    exact ⟨hutf8, hj.2, trivial⟩
  | .snoc hs _ h _ => by
    have hj := h.sound
    have hjs := hs.sound
    rw [collapseElements_append]
    exact ⟨utf8Elements_append hjs.1 hj.1, storableElements_append hjs.2 hj.2⟩

theorem Members.sound {t : Bytes} {ms : List (Bytes × Json)} : Members strtod t ms →
    utf8Members (collapseMembers ms) = true ∧
      StorableMembers (fun bits => isFinite bits = true) (collapseMembers ms)
  | .one hk _ h _ => by
    have hj := h.sound
    exact ⟨utf8Members_append [] rfl hk.utf8 hj.1, hj.2, trivial⟩
  | .snoc hs hk _ h _ => by
    have hj := h.sound
    have hms := hs.sound
    rw [collapseMembers_append]
    exact ⟨utf8Members_append _ hms.1 hk.utf8 hj.1, storableMembers_append hms.2 hj.2⟩

end

theorem Document.sound (h : Document strtod t j) : Sound j := by
  obtain ⟨-, -, h, -, -⟩ := h
  exact h.sound

end Contents

section Texts
open Http (isDigit)

theorem utf8_append_of (h : Rockets.utf8 s = true) : Rockets.utf8 (s ++ t) = Rockets.utf8 t := by
  obtain ⟨cs, rfl⟩ := utf8_iff.mp h
  induction cs with
  | nil => rfl
  | cons c cs ih =>
    have hcs : Rockets.utf8 (Utf8.encode cs) = true := utf8_iff.mpr ⟨cs, rfl⟩
    rw [Utf8.encode_cons, List.append_assoc,
      Serializer.utf8_append (Utf8.encodes_encodeChar c), ih hcs]

theorem utf8_append_true (h : Rockets.utf8 s = true) (ht : Rockets.utf8 t = true) :
    Rockets.utf8 (s ++ t) = true := (utf8_append_of h).trans ht

theorem utf8_of_ascii (h : ∀ b ∈ t, b.val < 0x80) : Rockets.utf8 t = true := by
  induction t with
  | nil => rfl
  | cons b t ih =>
    obtain ⟨hb, ht⟩ := List.forall_mem_cons.mp h
    exact (Serializer.utf8_append (x := [b]) (.one hb)).trans (ih ht)

theorem ascii_of_digits (h : t.all isDigit = true) : ∀ b ∈ t, b.val < 0x80 := by
  intro b hb
  have hdigit := List.all_eq_true.mp h b hb
  simp only [isDigit, Bool.and_eq_true, decide_eq_true_eq] at hdigit
  omega

theorem Numeral.text_ascii (y : Numeral) : ∀ b ∈ y.text, b.val < 0x80 := by
  have hinteger : ∀ b ∈ y.integer, b.val < 0x80 := by
    rcases y.isInteger with h | ⟨d, ds, -, -, h⟩
    · intro b hb
      rw [h] at hb
      rw [List.mem_singleton.mp hb]
      decide
    · exact ascii_of_digits h
  have hfraction : ∀ b ∈ y.fraction, b.val < 0x80 := by
    rcases y.isFraction with h | ⟨ds, h, -, hall⟩
    · simp [h]
    · rw [h]
      exact List.forall_mem_cons.mpr ⟨by decide, ascii_of_digits hall⟩
  have hexponent : ∀ b ∈ y.exponent, b.val < 0x80 := by
    rcases y.isExponent with h | ⟨e, sign, ds, h, he, hsign, -, hall⟩
    · simp [h]
    · rw [h]
      refine List.forall_mem_cons.mpr ⟨by rcases he with rfl | rfl <;> decide, fun b hb => ?_⟩
      rcases List.mem_append.mp hb with hb | hb
      · rcases hsign with rfl | rfl | rfl
        · cases hb
        all_goals
          rw [List.mem_singleton.mp hb]
          decide
      · exact ascii_of_digits hall b hb
  intro b hb
  unfold Numeral.text at hb
  simp only [List.mem_append] at hb
  rcases hb with ((hb | hb) | hb) | hb
  · split_ifs at hb
    · rw [List.mem_singleton.mp hb]
      decide
    · cases hb
  · exact hinteger b hb
  · exact hfraction b hb
  · exact hexponent b hb

theorem hexValue_ascii (b : Fin 256) (h : (hexValue b).isSome = true) : b.val < 0x80 := by
  unfold hexValue at h
  split_ifs at h
  · omega
  · omega
  · omega
  · cases h

theorem FourHex.ascii {n : ℕ} (h : FourHex t n) : ∀ b ∈ t, b.val < 0x80 := by
  cases h with
  | intro ha hb hc hd =>
    simp only [List.forall_mem_cons]
    exact ⟨hexValue_ascii _ (Option.isSome_of_eq_some ha),
      hexValue_ascii _ (Option.isSome_of_eq_some hb), hexValue_ascii _ (Option.isSome_of_eq_some hc),
      hexValue_ascii _ (Option.isSome_of_eq_some hd), by simp⟩

theorem shortEscape_ascii (b : Fin 256) (h : (shortEscape b).isSome = true) : b.val < 0x80 := by
  unfold shortEscape at h
  split_ifs at h
  all_goals first
    | (subst b; decide)
    | cases h

theorem Character.text_utf8 (h : Character t x) : Rockets.utf8 t = true := by
  cases h with
  | plain h => exact (List.append_nil t) ▸ Serializer.utf8_append h
  | @short e b h =>
    have he := shortEscape_ascii e (Option.isSome_of_eq_some h)
    exact utf8_of_ascii (by simpa using he)
  | unicode h =>
    exact utf8_append_true rfl (utf8_of_ascii h.ascii)
  | pair h _ h' _ _ =>
    exact utf8_append_true (utf8_append_true rfl (utf8_of_ascii h.ascii))
      (utf8_append_true rfl (utf8_of_ascii h'.ascii))

theorem Characters.text_utf8 (h : Characters t s) : Rockets.utf8 t = true := by
  induction h with
  | nil => rfl
  | cons h _ ih => exact utf8_append_true h.text_utf8 ih

theorem IsBlank.utf8 (h : IsBlank t) : Rockets.utf8 t = true := by
  refine utf8_of_ascii fun b hb => ?_
  rcases h b hb with rfl | rfl | rfl | rfl <;> decide

theorem utf8_cons {b : Fin 256} (hb : b.val < 0x80) (ht : Rockets.utf8 t = true) :
    Rockets.utf8 (b :: t) = true := (Serializer.utf8_append (x := [b]) (.one hb)).trans ht

theorem Scalar.text_utf8 (h : Scalar strtod t j) : Rockets.utf8 t = Bool.true := by
  cases h with
  | string h => exact utf8_cons (by decide) (utf8_append_true h.text_utf8 rfl)
  | number y _ => exact utf8_of_ascii y.text_ascii
  | _ => rfl

theorem Key.text_utf8 {k key : Bytes} (h : Key k key) : Rockets.utf8 k = true := by
  cases h with
  | intro hws h hws' =>
    exact utf8_append_true hws.utf8 (utf8_cons (by decide) (utf8_append_true h.text_utf8
      (utf8_cons (by decide) (utf8_append_true hws'.utf8 rfl))))

mutual

/-- The text of a value is well-formed UTF-8. -/
theorem Value.text_utf8 {t : Bytes} {j : Json} : Value strtod t j → Rockets.utf8 t = true
  | .scalar h => h.text_utf8
  | .emptyArray h | .emptyObject h => utf8_cons (by decide) (utf8_append_true h.utf8 rfl)
  | .array h => utf8_cons (by decide) (utf8_append_true h.text_utf8 rfl)
  | .object h => utf8_cons (by decide) (utf8_append_true h.text_utf8 rfl)

theorem Elements.text_utf8 {t : Bytes} {js : List Json} :
    Elements strtod t js → Rockets.utf8 t = true
  | .one hws h hws' => utf8_append_true (utf8_append_true hws.utf8 h.text_utf8) hws'.utf8
  | .snoc hs hws h hws' => utf8_append_true (utf8_append_true hs.text_utf8 rfl)
    (utf8_append_true (utf8_append_true hws.utf8 h.text_utf8) hws'.utf8)

theorem Members.text_utf8 {t : Bytes} {ms : List (Bytes × Json)} :
    Members strtod t ms → Rockets.utf8 t = true
  | .one hk hws h hws' => utf8_append_true hk.text_utf8
    (utf8_append_true (utf8_append_true hws.utf8 h.text_utf8) hws'.utf8)
  | .snoc hs hk hws h hws' => utf8_append_true (utf8_append_true hs.text_utf8 rfl)
    (utf8_append_true hk.text_utf8
      (utf8_append_true (utf8_append_true hws.utf8 h.text_utf8) hws'.utf8))

end

end Texts
end Grammar

section Library
open Parsing Serializer Grammar
variable {grisu2 : ℕ → Bytes × ℤ} {strtod : Strtod} {text : Bytes} {j : Json} {float : ℕ → Prop}

/-- How the parser ends, without the message of an overflow. -/
def parsed (strtod : Strtod) (text : Bytes) : Parsed :=
  match h : Json.parse strtod text with
  | .ok j => .value j (Json.parse_iff.mp h).sound.1
  | .error (.parseError what) => .parseError what
  | .error (.outOfRange _) => .outOfRange

theorem parsed_ok (h : Json.parse strtod text = .ok j) (hutf8 : j.utf8 = true) :
    parsed strtod text = .value j hutf8 := by
  unfold parsed
  split
  · next i hi =>
    obtain rfl : j = i := Except.ok.inj (h.symm.trans hi)
    rfl
  · next hi => cases h.symm.trans hi
  · next hi => cases h.symm.trans hi

theorem parsed_parseError {what : Bytes} (h : Json.parse strtod text = .error (.parseError what)) :
    parsed strtod text = .parseError what := by
  unfold parsed
  split
  · next hi => cases h.symm.trans hi
  · next hi =>
    cases h.symm.trans hi
    rfl
  · next hi => cases h.symm.trans hi

namespace JsonLib
variable (strtod : Strtod) (sameKey : Json → Json → Bool) (sameKey_refl : ∀ j, sameKey j j = true)

/-- The library with the parser that is embedded here. -/
def embedded : JsonLib := ⟨parsed strtod, sameKey, sameKey_refl⟩

end JsonLib

/-- The bytes of a text: those from outside, or what `dump(4)` writes. -/
def Text.render (grisu2 : ℕ → Bytes × ℤ) : Text → Except Fault Bytes
  | .bytes b => .ok b
  | .dumped j _ => dumpText grisu2 4 false j

/-- A double is finite and read as it is written. -/
structure Preserves (grisu2 : ℕ → Bytes × ℤ) (strtod : Strtod) (bits : ℕ) : Prop where
  finite : isFinite bits = true
  readsBack : ReadsBack grisu2 strtod bits

/-- The value that a text stands for is read as it is written. -/
def Text.Readable (grisu2 : ℕ → Bytes × ℤ) (strtod : Strtod) : Text → Prop
  | .bytes _ => True
  | .dumped j _ => j.Storable (Preserves grisu2 strtod)

namespace Json

mutual

theorem Storable.mono (float' : ℕ → Prop) (hfloat : ∀ bits, float bits → float' bits) :
    (j : Json) → j.Storable float → j.Storable float'
  | .null, _ | .boolean _, _ | .string _, _ => trivial
  | .numberInteger _, h | .numberUnsigned _, h => h
  | .numberFloat bits, h => hfloat bits h
  | .array js, h => StorableElements.mono hfloat js h
  | .object ms, h => ⟨h.1, StorableMembers.mono hfloat ms h.2⟩

theorem StorableElements.mono {float' : ℕ → Prop} (hfloat : ∀ bits, float bits → float' bits) :
    (js : List Json) → StorableElements float js → StorableElements float' js
  | [], _ => trivial
  | j :: js, h => ⟨Storable.mono _ hfloat j h.1, StorableElements.mono hfloat js h.2⟩

theorem StorableMembers.mono {float' : ℕ → Prop} (hfloat : ∀ bits, float bits → float' bits) :
    (ms : List (Bytes × Json)) → StorableMembers float ms → StorableMembers float' ms
  | [], _ => trivial
  | (_, j) :: ms, h => ⟨Storable.mono _ hfloat j h.1, StorableMembers.mono hfloat ms h.2⟩

end

mutual

/-- With finite floats only the integers may change. -/
theorem rewritten_eq (hfinite : ∀ bits, float bits → isFinite bits = true) :
    (j : Json) → j.Storable float → j.rewritten = j.reparsed
  | .null, _ | .boolean _, _ | .string _, _ | .numberUnsigned _, _ | .numberInteger _, _ => rfl
  | .numberFloat bits, h => by
    simp only [rewritten, reparsed, if_pos (hfinite bits h)]
  | .array js, h => by
    simp only [rewritten, reparsed, rewrittenElements_eq hfinite js h]
  | .object ms, h => by
    simp only [rewritten, reparsed, rewrittenMembers_eq hfinite ms h.2]

theorem rewrittenElements_eq (hfinite : ∀ bits, float bits → isFinite bits = true) :
    (js : List Json) → StorableElements float js → rewrittenElements js = reparsedElements js
  | [], _ => rfl
  | j :: js, h => by
    simp only [rewrittenElements, reparsedElements, rewritten_eq hfinite j h.1,
      rewrittenElements_eq hfinite js h.2]

theorem rewrittenMembers_eq (hfinite : ∀ bits, float bits → isFinite bits = true) :
    (ms : List (Bytes × Json)) → StorableMembers float ms → rewrittenMembers ms = reparsedMembers ms
  | [], _ => rfl
  | (k, j) :: ms, h => by
    simp only [rewrittenMembers, reparsedMembers, rewritten_eq hfinite j h.1,
      rewrittenMembers_eq hfinite ms h.2]

end

end Json

/-- What was read can be written, as well-formed UTF-8, and is read again as an equal value. -/
theorem parse_dump {indent : ℤ} (ensureAscii : Bool) (hindent : indent ≤ 512)
    (h : Json.parse strtod text = .ok j) (hj : j.Storable (FloatsReadBack grisu2 strtod)) :
    ∃ out, dumpText grisu2 indent ensureAscii j = .ok out ∧ utf8 out = true ∧
      Json.parse strtod out = .ok j.reparsed := by
  obtain ⟨hutf8, hfinite⟩ := (Json.parse_iff.mp h).sound
  obtain ⟨out, hdump, hvalue⟩ := (dumpText_spec ensureAscii hindent hj).1 hutf8
  have hparse := parse_value hvalue
  rw [collapse_rewritten j hj, Json.rewritten_eq (fun bits hbits => hbits) j hfinite] at hparse
  exact ⟨out, hdump, hvalue.text_utf8, hparse⟩

def oneAndHalfNumeral : Numeral where
  negative := false
  integer := [0x31]
  fraction := [0x2E, 0x35]
  exponent := []
  isInteger := .inr ⟨0x31, [], rfl, by decide, by decide⟩
  isFraction := .inr ⟨[0x35], rfl, by decide, by decide⟩
  isExponent := .inl rfl


theorem parse_oneAndHalf : Json.parse (fun _ => 0x3FF8000000000000) (ascii "[1.5]") =
    .ok (.array [.numberFloat 0x3FF8000000000000]) :=
  parse_value (.array (t := [0x31, 0x2E, 0x35]) (.one isBlank_nil
    (.scalar (.number oneAndHalfNumeral fun bits h => by cases h; decide)) isBlank_nil))

theorem parse_dump_oneAndHalf :
    ∃ out, dumpText oneAndHalf 4 true (.array [.numberFloat 0x3FF8000000000000]) = .ok out ∧
      utf8 out = true ∧ Json.parse (fun _ => 0x3FF8000000000000) out =
        .ok (.array [.numberFloat 0x3FF8000000000000]) :=
  parse_dump true (show (4 : ℤ) ≤ 512 by decide) parse_oneAndHalf
    ⟨fun _ => readsBack_oneAndHalf, trivial⟩

variable {sameKey : Json → Json → Bool} {sameKey_refl : ∀ j, sameKey j j = true} {t : Text}

/-- A text may stand for its bytes: parsing it is parsing them. -/
theorem JsonLib.embedded_parse (h : t.Readable grisu2 strtod) :
    ∃ bytes, t.render grisu2 = .ok bytes ∧
      (JsonLib.embedded strtod sameKey sameKey_refl).parse t = parsed strtod bytes := by
  cases t with
  | bytes b => exact ⟨b, rfl, rfl⟩
  | dumped j hutf8 =>
    have hstorable := Json.Storable.mono (FloatsReadBack grisu2 strtod)
      (fun bits hbits _ => hbits.readsBack) j h
    obtain ⟨text, hdump, hvalue⟩ := (dumpText_spec false
      (show (4 : ℤ) ≤ 512 by decide) hstorable).1 hutf8
    have hparse := parse_value hvalue
    rw [collapse_rewritten j hstorable, Json.rewritten_eq (fun bits h => h.finite) j h] at hparse
    exact ⟨text, hdump, (parsed_ok hparse (j.utf8_reparsed.trans hutf8)).symm⟩

end Library
end Rockets
