import Rockets.JsonCompleteness
import Rockets.JsonNumerals

set_option autoImplicit false

/-!
# The serializer of JSON values

What `dump` writes is a document of the grammar, and the parser reads from it the value that was
written. It fails for ill-formed strings only and never reads behind its string of blanks.
-/
namespace Rockets

namespace Grammar
variable {strtod : Strtod} {ws ws' t k key : Bytes} {j : Json}

theorem isBlank_append (h : IsBlank ws) (h' : IsBlank ws') : IsBlank (ws ++ ws') :=
  fun b hb => (List.mem_append.mp hb).elim (h b) (h' b)

theorem isBlank_replicate (n : ℕ) : IsBlank (List.replicate n 0x20) :=
  fun _ hb => .inl (List.eq_of_mem_replicate hb)

theorem isBlank_nil : IsBlank [] := by simp [IsBlank]

theorem isBlank_newline : IsBlank [0x0A] := by simp [IsBlank, IsSpace]

theorem Elements.append_blank {ts : Bytes} {js : List Json} (h : Elements strtod ts js)
    (hws : IsBlank ws) : Elements strtod (ts ++ ws) js := by
  cases h with
  | one hws1 h hws2 => simpa using Elements.one hws1 h (isBlank_append hws2 hws)
  | snoc hs hws1 h hws2 => simpa using Elements.snoc hs hws1 h (isBlank_append hws2 hws)

theorem Elements.blank_append {ts : Bytes} {js : List Json} (hws : IsBlank ws)
    (h : Elements strtod ts js) : Elements strtod (ws ++ ts) js := by
  cases h with
  | one hws1 h hws2 => simpa using Elements.one (isBlank_append hws hws1) h hws2
  | snoc hs hws1 h hws2 => simpa using Elements.snoc (hs.blank_append hws) hws1 h hws2
termination_by js.length
decreasing_by simp

theorem Elements.cons {ts : Bytes} {js : List Json} (hws : IsBlank ws) (h : Value strtod t j)
    (hws' : IsBlank ws') (hs : Elements strtod ts js) :
    Elements strtod (ws ++ t ++ ws' ++ [0x2C] ++ ts) (j :: js) := by
  cases hs with
  | one hws1 h1 hws2 => exact .snoc (.one hws h hws') hws1 h1 hws2
  | snoc hs hws1 h1 hws2 => simpa using Elements.snoc (.cons hws h hws' hs) hws1 h1 hws2
termination_by js.length
decreasing_by simp

theorem Key.blank_append (hws : IsBlank ws) (h : Key k key) : Key (ws ++ k) key := by
  cases h with
  | intro hws1 h hws2 => simpa using Key.intro (isBlank_append hws hws1) h hws2

theorem Members.append_blank {ts : Bytes} {ms : List (Bytes × Json)} (h : Members strtod ts ms)
    (hws : IsBlank ws) : Members strtod (ts ++ ws) ms := by
  cases h with
  | one hk hws1 h hws2 => simpa using Members.one hk hws1 h (isBlank_append hws2 hws)
  | snoc hs hk hws1 h hws2 => simpa using Members.snoc hs hk hws1 h (isBlank_append hws2 hws)

theorem Members.blank_append {ts : Bytes} {ms : List (Bytes × Json)} (hws : IsBlank ws)
    (h : Members strtod ts ms) : Members strtod (ws ++ ts) ms := by
  cases h with
  | one hk hws1 h hws2 => simpa using Members.one (hk.blank_append hws) hws1 h hws2
  | snoc hs hk hws1 h hws2 => simpa using Members.snoc (hs.blank_append hws) hk hws1 h hws2
termination_by ms.length
decreasing_by simp

theorem Members.cons {ts : Bytes} {ms : List (Bytes × Json)} (hk : Key k key) (hws : IsBlank ws)
    (h : Value strtod t j) (hws' : IsBlank ws') (hs : Members strtod ts ms) :
    Members strtod (k ++ (ws ++ t ++ ws') ++ [0x2C] ++ ts) ((key, j) :: ms) := by
  cases hs with
  | one hk1 hws1 h1 hws2 => exact .snoc (.one hk hws h hws') hk1 hws1 h1 hws2
  | snoc hs hk1 hws1 h1 hws2 =>
    simpa using Members.snoc (.cons hk hws h hws' hs) hk1 hws1 h1 hws2
termination_by ms.length
decreasing_by simp

end Grammar

namespace Json

mutual

/-- Numbers fit their types, floats as is said, and the members of objects are in key order. -/
def Storable (float : ℕ → Prop) : Json → Prop
  | .numberInteger n => -2 ^ 63 ≤ n ∧ n < 2 ^ 63
  | .numberUnsigned n => n < 2 ^ 64
  | .numberFloat bits => float bits
  | .array js => StorableElements float js
  | .object ms => Entries.Sorted ms ∧ StorableMembers float ms
  | _ => True

def StorableElements (float : ℕ → Prop) : List Json → Prop
  | [] => True
  | j :: js => Storable float j ∧ StorableElements float js

def StorableMembers (float : ℕ → Prop) : List (Bytes × Json) → Prop
  | [] => True
  | (_, j) :: ms => Storable float j ∧ StorableMembers float ms

end

mutual

/-- What is read from the text that a value is written as: nonnegative integers are unsigned,
and floats that are not finite are null. -/
def rewritten : Json → Json
  | .numberInteger n => if 0 ≤ n then .numberUnsigned n.toNat else .numberInteger n
  | .numberFloat bits => if isFinite bits then .numberFloat bits else .null
  | .array js => .array (rewrittenElements js)
  | .object ms => .object (rewrittenMembers ms)
  | j => j

def rewrittenElements : List Json → List Json
  | [] => []
  | j :: js => rewritten j :: rewrittenElements js

def rewrittenMembers : List (Bytes × Json) → List (Bytes × Json)
  | [] => []
  | (k, j) :: ms => (k, rewritten j) :: rewrittenMembers ms

end

end Json

namespace Serializer

/-- The arguments that `dump` hands down. -/
structure Style where
  prettyPrint : Bool
  ensureAscii : Bool
  indentStep : ℕ

/-- The length of the string of blanks and what the output adapter has got. -/
structure Sink where
  indentString : ℕ
  out : Bytes

namespace Sink

def write (cs : Bytes) (s : Sink) : Sink := { s with out := s.out ++ cs }

def indent (n : ℕ) (s : Sink) : Except Fault Sink :=
  if n ≤ s.indentString then .ok (s.write (List.replicate n 0x20)) else .error .outOfBounds

/-- The string of blanks is doubled once. -/
def grow (newIndent : ℕ) (s : Sink) : Sink :=
  if s.indentString < newIndent then { s with indentString := s.indentString * 2 } else s

def dumpEscaped (ensureAscii : Bool) (x : Bytes) (s : Sink) : Except Fault Sink :=
  match Serializer.dumpEscaped ensureAscii x s.out with
  | .error f => .error f
  | .ok out => .ok { s with out := out }

def dumpInteger (x : ℤ) (s : Sink) : Except Fault Sink :=
  match Serializer.dumpInteger x s.out with
  | .error f => .error f
  | .ok out => .ok { s with out := out }

end Sink

section Dump
variable (style : Style) (grisu2 : ℕ → Bytes × ℤ)

/-- Before an element and between two. -/
def lead (indent : ℕ) (s : Sink) : Except Fault Sink :=
  if style.prettyPrint then s.indent indent else .ok s

def comma (s : Sink) : Sink := s.write (if style.prettyPrint then [0x2C, 0x0A] else [0x2C])

mutual

def dump : Json → ℕ → Sink → Except Fault Sink
  | .object [], _, s => .ok (s.write [0x7B, 0x7D])
  | .object (m :: ms), currentIndent, s =>
    if style.prettyPrint then do
      let newIndent := (currentIndent + style.indentStep) % 2 ^ 32
      let s ← dumpMembers (m :: ms) newIndent ((s.write [0x7B, 0x0A]).grow newIndent)
      let s ← (s.write [0x0A]).indent currentIndent
      .ok (s.write [0x7D])
    else do
      let s ← dumpMembers (m :: ms) currentIndent (s.write [0x7B])
      .ok (s.write [0x7D])
  | .array [], _, s => .ok (s.write [0x5B, 0x5D])
  | .array (j :: js), currentIndent, s =>
    if style.prettyPrint then do
      let newIndent := (currentIndent + style.indentStep) % 2 ^ 32
      let s ← dumpElements (j :: js) newIndent ((s.write [0x5B, 0x0A]).grow newIndent)
      let s ← (s.write [0x0A]).indent currentIndent
      .ok (s.write [0x5D])
    else do
      let s ← dumpElements (j :: js) currentIndent (s.write [0x5B])
      .ok (s.write [0x5D])
  | .string x, _, s => do
    let s ← (s.write [0x22]).dumpEscaped style.ensureAscii x
    .ok (s.write [0x22])
  | .boolean b, _, s => .ok (s.write (if b then ascii "true" else ascii "false"))
  | .numberInteger n, _, s => s.dumpInteger n
  | .numberUnsigned n, _, s => s.dumpInteger n
  | .numberFloat bits, _, s => .ok { s with out := dumpFloat grisu2 bits s.out }
  | .null, _, s => .ok (s.write (ascii "null"))

def dumpElements : List Json → ℕ → Sink → Except Fault Sink
  | [], _, s => .ok s
  | j :: js, indent, s => do
    let s ← lead style indent s
    let s ← dump j indent s
    if js.isEmpty then .ok s else dumpElements js indent (comma style s)

def dumpMembers : List (Bytes × Json) → ℕ → Sink → Except Fault Sink
  | [], _, s => .ok s
  | (k, j) :: ms, indent, s => do
    let s ← lead style indent s
    let s ← (s.write [0x22]).dumpEscaped style.ensureAscii k
    let s ← dump j indent
      (s.write (if style.prettyPrint then [0x22, 0x3A, 0x20] else [0x22, 0x3A]))
    if ms.isEmpty then .ok s else dumpMembers ms indent (comma style s)

end

/-- The member function `dump`. -/
def dumpText (indent : ℤ) (ensureAscii : Bool) (j : Json) : Except Fault Bytes :=
  let style : Style := if 0 ≤ indent then ⟨true, ensureAscii, (indent % 2 ^ 32).toNat⟩
    else ⟨false, ensureAscii, 0⟩
  match dump style grisu2 j 0 ⟨512, []⟩ with
  | .error f => .error f
  | .ok s => .ok s.out

end Dump

section Writes
variable {V : Bytes → Prop} {a b : Bool} {s s' : Sink} {n : ℕ} {r : Except Fault Sink}

/-- A text of a kind is written, or the step fails because of a string. -/
def Writes (wellFormed : Bool) (V : Bytes → Prop) (s : Sink) (r : Except Fault Sink) : Prop :=
  match r with
  | .ok s' => wellFormed = true ∧ s.indentString ≤ s'.indentString ∧
    ∃ t, s'.out = s.out ++ t ∧ V t
  | .error (.typeError _) => wellFormed = false
  | .error .outOfBounds => False

theorem Writes.ok (hs : s.indentString ≤ s'.indentString) {t : Bytes}
    (hout : s'.out = s.out ++ t) (h : V t) : Writes true V s (.ok s') := ⟨rfl, hs, t, hout, h⟩

/-- One step after the other. -/
theorem Writes.bind {T : Bytes → Prop} {f : Sink → Except Fault Sink} (h : Writes a T s r)
    (hf : ∀ s' t, s.indentString ≤ s'.indentString → T t →
      Writes b (fun u => V (t ++ u)) s' (f s')) : Writes (a && b) V s (r >>= f) := by
  cases r with
  | error fault =>
    cases fault with
    | typeError what =>
      have ha : a = false := h
      exact (congrArg (· && b) ha).trans (Bool.false_and b)
    | outOfBounds => exact h
  | ok s1 =>
    obtain ⟨ha, hs, t, hout, ht⟩ := h
    have h2 := hf s1 t hs ht
    rw [ha, Bool.true_and]
    change Writes b V s (f s1)
    unfold Writes at h2 ⊢
    split at h2
    · next s2 =>
      obtain ⟨hb, hs2, u, hout2, hu⟩ := h2
      exact ⟨hb, hs.trans hs2, t ++ u, by rw [hout2, hout, List.append_assoc], hu⟩
    · exact h2
    · exact h2

theorem Writes.write (cs : Bytes) (h : Writes b (fun u => V (cs ++ u)) (s.write cs) r) :
    Writes b V s r := by
  unfold Writes at h ⊢
  split at h
  · obtain ⟨hb, hs, u, hout, hu⟩ := h
    exact ⟨hb, hs, cs ++ u, by rw [hout]; exact List.append_assoc .., hu⟩
  · exact h
  · exact h

theorem Writes.grow (h : Writes b V (s.grow n) r) : Writes b V s r := by
  have hle : s.indentString ≤ (s.grow n).indentString := by
    unfold Sink.grow
    split_ifs
    · exact Nat.le_mul_of_pos_right _ (by decide)
    · exact le_rfl
  have hout : (s.grow n).out = s.out := by
    unfold Sink.grow
    split_ifs <;> rfl
  unfold Writes at h ⊢
  split at h
  · obtain ⟨hb, hs, u, hu⟩ := h
    exact ⟨hb, hle.trans hs, u, hout ▸ hu⟩
  · exact h
  · exact h

theorem Writes.mono {W : Bytes → Prop} (h : Writes b V s r) (hV : ∀ t, V t → W t) :
    Writes b W s r := by
  unfold Writes at h ⊢
  split at h
  · obtain ⟨hb, hs, u, hout, hu⟩ := h
    exact ⟨hb, hs, u, hout, hV u hu⟩
  · exact h
  · exact h

theorem indent_writes (h : n ≤ s.indentString) :
    Writes true (· = List.replicate n 0x20) s (s.indent n) := by
  rw [Sink.indent, if_pos h]
  exact .ok le_rfl rfl rfl

theorem dumpEscaped_writes (ensureAscii : Bool) (x : Bytes) :
    Writes (utf8 x) (Grammar.Characters · x) s (s.dumpEscaped ensureAscii x) := by
  unfold Sink.dumpEscaped
  cases h : utf8 x with
  | true =>
    obtain ⟨t, hdump, ht⟩ := dumpEscaped_ok ensureAscii s.out h
    rw [hdump]
    exact .ok le_rfl rfl ht
  | false =>
    obtain ⟨what, hdump⟩ := dumpEscaped_error ensureAscii s.out h
    rw [hdump]
    rfl

theorem dumpInteger_writes {x : ℤ} (h : x.natAbs < 2 ^ 64) :
    Writes true (· = signed x) s (s.dumpInteger x) := by
  rw [Sink.dumpInteger, dumpInteger_eq h]
  exact .ok le_rfl rfl rfl

end Writes

section Values
open Grammar
variable {style : Style} {grisu2 : ℕ → Bytes × ℤ} {strtod : Strtod}

theorem lead_writes {n : ℕ} {s : Sink} (h : n ≤ s.indentString) :
    Writes true IsBlank s (lead style n s) := by
  unfold lead
  split_ifs
  · exact (indent_writes h).mono fun t ht => ht ▸ isBlank_replicate n
  · exact .ok le_rfl (List.append_nil _).symm isBlank_nil

theorem grow_fits {n m : ℕ} {s : Sink} (hstep : style.indentStep ≤ 512)
    (hs : 512 ≤ s.indentString) (hn : n ≤ s.indentString)
    (hm : m = (n + style.indentStep) % 2 ^ 32) : m ≤ (s.grow m).indentString := by
  have hle : m ≤ n + style.indentStep := hm ▸ Nat.mod_le _ _
  unfold Sink.grow
  split_ifs
  · change m ≤ s.indentString * 2
    omega
  · omega

theorem grow_le {n : ℕ} (s : Sink) : s.indentString ≤ (s.grow n).indentString := by
  unfold Sink.grow
  split_ifs
  · exact Nat.le_mul_of_pos_right _ (by decide)
  · exact le_rfl

/-- The floats of a value are read as they are written. -/
abbrev FloatsReadBack (grisu2 : ℕ → Bytes × ℤ) (strtod : Strtod) (bits : ℕ) : Prop :=
  isFinite bits = true → ReadsBack grisu2 strtod bits

mutual

theorem dump_writes (hstep : style.indentStep ≤ 512) : (j : Json) →
    j.Storable (FloatsReadBack grisu2 strtod) → ∀ (n : ℕ) (s : Sink), 512 ≤ s.indentString →
      n ≤ s.indentString →
      Writes j.utf8 (Value strtod · j.rewritten) s (dump style grisu2 j n s)
  | .null, _ => fun n s _ _ => .ok le_rfl rfl (.scalar .null)
  | .boolean true, _ => fun n s _ _ => .ok le_rfl rfl (.scalar .true)
  | .boolean false, _ => fun n s _ _ => .ok le_rfl rfl (.scalar .false)
  | .numberInteger x, h => fun n s _ _ => by
    rw [Json.Storable] at h
    simp only [dump, Json.rewritten]
    exact (dumpInteger_writes (by omega)).mono fun t ht =>
      ht ▸ .scalar (scalar_signed h.1 (by omega))
  | .numberUnsigned x, h => fun n s _ _ => by
    rw [Json.Storable] at h
    simp only [dump, Json.rewritten]
    exact (dumpInteger_writes (by omega)).mono fun t ht =>
      ht ▸ .scalar (scalar_signed (x := x) (by omega) (by omega))
  | .numberFloat bits, h => fun n s _ _ => by
    rw [Json.Storable] at h
    simp only [dump, Json.rewritten, dumpFloat]
    cases hfinite : isFinite bits with
    | true => exact .ok le_rfl rfl (.scalar (scalar_toChars (h hfinite) hfinite))
    | false => exact .ok le_rfl rfl (.scalar .null)
  | .string x, _ => fun n s _ _ => by
    simp only [dump, Json.rewritten, Json.utf8]
    refine .write [0x22] ?_
    rw [← Bool.and_true (utf8 x)]
    exact .bind (dumpEscaped_writes _ x) fun s' t _ ht =>
      .ok le_rfl rfl (.scalar (.string ht))
  | .array [], _ => fun n s _ _ =>
    .ok le_rfl rfl (.emptyArray isBlank_nil)
  | .array (j :: js), h => fun n s hs hn => by
    rw [Json.Storable] at h
    simp only [dump, Json.rewritten, Json.utf8]
    rw [← Bool.and_true (Json.utf8Elements (j :: js))]
    split_ifs
    · have hs0 : s.indentString ≤ ((s.write [0x5B, 0x0A]).grow
        ((n + style.indentStep) % 2 ^ 32)).indentString := grow_le (s.write [0x5B, 0x0A])
      refine .write [0x5B, 0x0A] (.grow (n := (n + style.indentStep) % 2 ^ 32) ?_)
      refine .bind (dumpElements_writes hstep (j :: js) (by simp) h _ _
        (hs.trans hs0) (grow_fits hstep hs hn rfl)) fun s1 t hs1 ht => ?_
      refine .write [0x0A] (.bind (a := true)
        (indent_writes (hn.trans (hs0.trans hs1))) fun s2 u _ hu => ?_)
      refine .ok le_rfl rfl ?_
      have hblank : IsBlank (0x0A :: u) :=
        isBlank_append isBlank_newline (hu ▸ isBlank_replicate n)
      simpa using Value.array ((ht.blank_append isBlank_newline).append_blank hblank)
    · refine .write [0x5B] ?_
      refine .bind (dumpElements_writes hstep (j :: js) (by simp) h n _ hs hn) fun s1 t hs1 ht => ?_
      exact .ok le_rfl rfl (.array ht)
  | .object [], _ => fun n s _ _ =>
    .ok le_rfl rfl (.emptyObject isBlank_nil)
  | .object (m :: ms), h => fun n s hs hn => by
    rw [Json.Storable] at h
    simp only [dump, Json.rewritten, Json.utf8]
    rw [← Bool.and_true (Json.utf8Members (m :: ms))]
    split_ifs
    · have hs0 : s.indentString ≤ ((s.write [0x7B, 0x0A]).grow
        ((n + style.indentStep) % 2 ^ 32)).indentString := grow_le (s.write [0x7B, 0x0A])
      refine .write [0x7B, 0x0A] (.grow (n := (n + style.indentStep) % 2 ^ 32) ?_)
      refine .bind (dumpMembers_writes hstep (m :: ms) (by simp) h.2 _ _
        (hs.trans hs0) (grow_fits hstep hs hn rfl)) fun s1 t hs1 ht => ?_
      refine .write [0x0A] (.bind (a := true)
        (indent_writes (hn.trans (hs0.trans hs1))) fun s2 u _ hu => ?_)
      refine .ok le_rfl rfl ?_
      have hblank : IsBlank (0x0A :: u) :=
        isBlank_append isBlank_newline (hu ▸ isBlank_replicate n)
      simpa using Value.object ((ht.blank_append isBlank_newline).append_blank hblank)
    · refine .write [0x7B] ?_
      refine .bind (dumpMembers_writes hstep (m :: ms) (by simp) h.2 n _ hs hn) fun s1 t hs1 ht => ?_
      exact .ok le_rfl rfl (.object ht)

theorem dumpElements_writes (hstep : style.indentStep ≤ 512) : (js : List Json) → js ≠ [] →
    Json.StorableElements (FloatsReadBack grisu2 strtod) js → ∀ (n : ℕ) (s : Sink),
      512 ≤ s.indentString → n ≤ s.indentString →
      Writes (Json.utf8Elements js) (Elements strtod · (Json.rewrittenElements js)) s
        (dumpElements style grisu2 js n s)
  | [], hne, _ => absurd rfl hne
  | j :: js, _, h => fun n s hs hn => by
    rw [dumpElements, Json.utf8Elements, Json.rewrittenElements]
    refine .bind (a := true) (lead_writes hn) fun s1 ws hs1 hws => ?_
    refine .bind (dump_writes hstep j h.1 n s1 (hs.trans hs1) (hn.trans hs1)) fun s2 t hs2 ht => ?_
    cases js with
    | nil =>
      refine .ok le_rfl (List.append_nil _).symm ?_
      simpa [Json.rewrittenElements] using Elements.one hws ht isBlank_nil
    | cons k js =>
      refine .write (if style.prettyPrint then [0x2C, 0x0A] else [0x2C]) ?_
      have hrest := dumpElements_writes hstep (k :: js) (by simp) h.2 n (comma style s2)
        (hs.trans (hs1.trans hs2)) (hn.trans (hs1.trans hs2))
      refine hrest.mono fun ts hts => ?_
      split_ifs
      · simpa using Elements.cons hws ht isBlank_nil (hts.blank_append isBlank_newline)
      · simpa using Elements.cons hws ht isBlank_nil hts

theorem dumpMembers_writes (hstep : style.indentStep ≤ 512) : (ms : List (Bytes × Json)) →
    ms ≠ [] → Json.StorableMembers (FloatsReadBack grisu2 strtod) ms → ∀ (n : ℕ) (s : Sink),
      512 ≤ s.indentString → n ≤ s.indentString →
      Writes (Json.utf8Members ms) (Members strtod · (Json.rewrittenMembers ms)) s
        (dumpMembers style grisu2 ms n s)
  | [], hne, _ => absurd rfl hne
  | (k, j) :: ms, _, h => fun n s hs hn => by
    rw [dumpMembers, Json.utf8Members, Json.rewrittenMembers, Bool.and_assoc]
    refine .bind (a := true) (lead_writes hn) fun s1 ws hs1 hws => ?_
    refine .write [0x22] ?_
    refine .bind (dumpEscaped_writes _ k) fun s2 x hs2 hx => ?_
    refine .write (if style.prettyPrint then [0x22, 0x3A, 0x20] else [0x22, 0x3A]) ?_
    have hs2 : s1.indentString ≤ s2.indentString := hs2
    refine .bind (dump_writes hstep j h.1 n _ (hs.trans (hs1.trans hs2))
      (hn.trans (hs1.trans hs2))) fun s3 t hs3 ht => ?_
    have hs3 : s2.indentString ≤ s3.indentString := hs3
    have hkey := Key.intro hws hx isBlank_nil
    have hblank : ∃ ws, IsBlank ws ∧ (if style.prettyPrint then [0x22, 0x3A, 0x20]
        else [0x22, 0x3A]) = 0x22 :: 0x3A :: ws := by
      split_ifs
      · exact ⟨[0x20], by simp [IsBlank, IsSpace], rfl⟩
      · exact ⟨[], isBlank_nil, rfl⟩
    obtain ⟨ws', hws', hcolon⟩ := hblank
    rw [hcolon]
    cases ms with
    | nil =>
      refine .ok le_rfl (List.append_nil _).symm ?_
      simpa [Json.rewrittenMembers] using Members.one hkey hws' ht isBlank_nil
    | cons m ms =>
      refine .write (if style.prettyPrint then [0x2C, 0x0A] else [0x2C]) ?_
      have hrest := dumpMembers_writes hstep (m :: ms) (by simp) h.2 n (comma style s3)
        (hs.trans (hs1.trans (hs2.trans hs3))) (hn.trans (hs1.trans (hs2.trans hs3)))
      refine hrest.mono fun ts hts => ?_
      split_ifs
      · simpa using Members.cons hkey hws' ht isBlank_nil (hts.blank_append isBlank_newline)
      · simpa using Members.cons hkey hws' ht isBlank_nil hts

end

end Values

section Rewriting
variable (style : Style) (grisu2 : ℕ → Bytes × ℤ)

theorem rewrittenElements_isEmpty (js : List Json) :
    (Json.rewrittenElements js).isEmpty = js.isEmpty := by
  cases js <;> rfl

theorem rewrittenMembers_isEmpty (ms : List (Bytes × Json)) :
    (Json.rewrittenMembers ms).isEmpty = ms.isEmpty := by
  cases ms <;> rfl

mutual

/-- A value and what is read from its text are written alike. -/
theorem dump_rewritten : (j : Json) → ∀ n s,
    dump style grisu2 j.rewritten n s = dump style grisu2 j n s
  | .null | .boolean _ | .string _ | .numberUnsigned _ => fun n s => by simp only [Json.rewritten]
  | .numberInteger x => fun n s => by
    simp only [Json.rewritten]
    split_ifs with h
    · simp only [dump, Int.toNat_of_nonneg h]
    · rfl
  | .numberFloat bits => fun n s => by
    simp only [Json.rewritten]
    cases h : isFinite bits with
    | true => rfl
    | false =>
      simp only [dump, dumpFloat, h]
      rfl
  | .array [] | .object [] => fun n s => by
    simp only [Json.rewritten, Json.rewrittenElements, Json.rewrittenMembers]
  | .array (j :: js) => fun n s => by
    have h := dumpElements_rewritten (j :: js)
    simp only [Json.rewrittenElements] at h
    simp only [Json.rewritten, Json.rewrittenElements, dump, h]
  | .object ((k, j) :: ms) => fun n s => by
    have h := dumpMembers_rewritten ((k, j) :: ms)
    simp only [Json.rewrittenMembers] at h
    simp only [Json.rewritten, Json.rewrittenMembers, dump, h]

theorem dumpElements_rewritten : (js : List Json) → ∀ n s,
    dumpElements style grisu2 (Json.rewrittenElements js) n s = dumpElements style grisu2 js n s
  | [] => fun n s => rfl
  | j :: js => fun n s => by
    simp only [Json.rewrittenElements, dumpElements, dump_rewritten j,
      dumpElements_rewritten js, rewrittenElements_isEmpty]

theorem dumpMembers_rewritten : (ms : List (Bytes × Json)) → ∀ n s,
    dumpMembers style grisu2 (Json.rewrittenMembers ms) n s = dumpMembers style grisu2 ms n s
  | [] => fun n s => rfl
  | (k, j) :: ms => fun n s => by
    simp only [Json.rewrittenMembers, dumpMembers, dump_rewritten j, dumpMembers_rewritten ms,
      rewrittenMembers_isEmpty]

end

end Rewriting
end Serializer

namespace Grammar
open Json

theorem set_append {ms : List (Bytes × Json)} {k : Bytes} {j : Json} (h : ∀ m ∈ ms, m.1 < k) :
    Entries.set k j ms = ms ++ [(k, j)] := by
  induction ms with
  | nil => rfl
  | cons m ms ih =>
    have hm := h m List.mem_cons_self
    rw [Entries.set, if_neg hm.asymm, if_neg hm.ne, ih fun m hm => h m (List.mem_cons_of_mem _ hm)]
    rfl

theorem ofMembers_sorted {ms : List (Bytes × Json)} (h : Entries.Sorted ms) :
    Json.ofMembers ms = .object ms := by
  have hfold : ∀ es : List (Bytes × Json), Entries.Sorted (es ++ ms) →
      ms.foldl (fun es m => Entries.set m.1 m.2 es) es = es ++ ms := by
    clear h
    induction ms with
    | nil => exact fun es _ => (List.append_nil es).symm
    | cons m ms ih =>
      intro es hes
      have hlt : ∀ e ∈ es, e.1 < m.1 := fun e he =>
        (List.pairwise_append.mp hes).2.2 e he m List.mem_cons_self
      rw [List.foldl_cons, set_append hlt, ih _ (by simpa using hes), List.append_assoc,
        List.singleton_append]
  exact congrArg Json.object (hfold [] h)

theorem keys_rewrittenMembers (ms : List (Bytes × Json)) :
    (rewrittenMembers ms).map Prod.fst = ms.map Prod.fst := by
  induction ms with
  | nil => rfl
  | cons m ms ih => simp only [rewrittenMembers, List.map_cons, ih]

theorem sorted_rewrittenMembers {ms : List (Bytes × Json)} (h : Entries.Sorted ms) :
    Entries.Sorted (rewrittenMembers ms) := by
  unfold Entries.Sorted at h ⊢
  rw [← List.pairwise_map] at h ⊢
  rwa [keys_rewrittenMembers]

variable {float : ℕ → Prop}

mutual

/-- The members of a stored value are in key order, so that nothing changes. -/
theorem collapse_rewritten : (j : Json) → j.Storable float → collapse j.rewritten = j.rewritten
  | .null, _ | .boolean _, _ | .string _, _ | .numberUnsigned _, _ => rfl
  | .numberInteger x, _ => by
    simp only [rewritten]
    split_ifs <;> rfl
  | .numberFloat bits, _ => by
    simp only [rewritten]
    split_ifs <;> rfl
  | .array js, h => by
    simp only [rewritten, collapse, collapse_rewrittenElements js h]
  | .object ms, h => by
    simp only [rewritten, collapse, collapse_rewrittenMembers ms h.2]
    exact ofMembers_sorted (sorted_rewrittenMembers h.1)

theorem collapse_rewrittenElements : (js : List Json) → StorableElements float js →
    collapseElements (rewrittenElements js) = rewrittenElements js
  | [], _ => rfl
  | j :: js, h => by
    simp only [rewrittenElements, collapseElements, collapse_rewritten j h.1,
      collapse_rewrittenElements js h.2]

theorem collapse_rewrittenMembers : (ms : List (Bytes × Json)) → StorableMembers float ms →
    collapseMembers (rewrittenMembers ms) = rewrittenMembers ms
  | [], _ => rfl
  | (k, j) :: ms, h => by
    simp only [rewrittenMembers, collapseMembers, collapse_rewritten j h.1,
      collapse_rewrittenMembers ms h.2]

end
end Grammar

section Texts
open Serializer Parsing
variable {grisu2 : ℕ → Bytes × ℤ} {strtod : Strtod} {j : Json} {indent : ℤ} {ensureAscii : Bool}
  {text : Bytes}

theorem dumpText_spec (ensureAscii : Bool) (hindent : indent ≤ 512)
    (hj : j.Storable (FloatsReadBack grisu2 strtod)) :
    (j.utf8 = true → ∃ text, dumpText grisu2 indent ensureAscii j = .ok text ∧
      Grammar.Value strtod text j.rewritten) ∧
    (j.utf8 = false → ∃ what, dumpText grisu2 indent ensureAscii j = .error (.typeError what)) := by
  have hwrites : ∀ style : Style, style.indentStep ≤ 512 →
      Writes j.utf8 (Grammar.Value strtod · j.rewritten) ⟨512, []⟩
        (dump style grisu2 j 0 ⟨512, []⟩) := fun style hstep =>
    dump_writes hstep j hj 0 ⟨512, []⟩ le_rfl (Nat.zero_le _)
  have h := hwrites (if 0 ≤ indent then ⟨true, ensureAscii, (indent % 2 ^ 32).toNat⟩
    else ⟨false, ensureAscii, 0⟩) (by split_ifs <;> simp only <;> omega)
  unfold dumpText
  dsimp only
  unfold Writes at h
  split at h
  · next s heq =>
    obtain ⟨hutf8, -, t, hout, ht⟩ := h
    refine ⟨fun _ => ⟨t, ?_, ht⟩, fun hfalse => ?_⟩
    · rw [heq]
      exact congrArg Except.ok hout
    · rw [hutf8] at hfalse
      cases hfalse
  · next what heq =>
    refine ⟨fun htrue => ?_, fun _ => ⟨what, by rw [heq]⟩⟩
    rw [h] at htrue
    cases htrue
  · exact absurd h id

theorem parse_value (h : Grammar.Value strtod text j) :
    Json.parse strtod text = .ok (Grammar.collapse j) := by
  have hdoc : Grammar.Document strtod ([] ++ ([] ++ text ++ []) ++ []) (Grammar.collapse j) :=
    .intro (.inl rfl) Grammar.isBlank_nil h Grammar.isBlank_nil (.inl rfl)
  simpa using Json.parse_iff.mpr hdoc

/-- A value is written if its strings are well-formed, and only then; its text is read as a value
that is written as the same text. -/
theorem dump_round_trip (ensureAscii : Bool) (hindent : indent ≤ 512)
    (hj : j.Storable (FloatsReadBack grisu2 strtod)) :
    (j.utf8 = true ↔ ∃ text, dumpText grisu2 indent ensureAscii j = .ok text) ∧
      (∀ text, dumpText grisu2 indent ensureAscii j = .ok text →
        Json.parse strtod text = .ok j.rewritten ∧
          dumpText grisu2 indent ensureAscii j.rewritten = .ok text) ∧
      dumpText grisu2 indent ensureAscii j ≠ .error .outOfBounds := by
  have hsame : dumpText grisu2 indent ensureAscii j.rewritten =
      dumpText grisu2 indent ensureAscii j := by
    simp only [dumpText, dump_rewritten]
  obtain ⟨hok, herror⟩ := dumpText_spec ensureAscii hindent hj
  cases hutf8 : j.utf8 with
  | true =>
    obtain ⟨text, hdump, hvalue⟩ := hok hutf8
    have hparse := parse_value hvalue
    rw [Grammar.collapse_rewritten j hj] at hparse
    rw [hsame, hdump]
    refine ⟨⟨fun _ => ⟨text, rfl⟩, fun _ => rfl⟩, fun text' h => ?_, nofun⟩
    obtain rfl := Except.ok.inj h
    exact ⟨hparse, rfl⟩
  | false =>
    obtain ⟨what, hdump⟩ := herror hutf8
    rw [hdump]
    refine ⟨⟨nofun, fun ⟨text, h⟩ => ?_⟩, fun text h => ?_, fun h => ?_⟩
    · cases h
    · cases h
    · cases h

/-- The shortest decimal of 1.5 and its exponent. -/
def oneAndHalf (_ : ℕ) : Bytes × ℤ := ([0x31, 0x35], -1)

theorem readsBack_oneAndHalf :
    ReadsBack oneAndHalf (fun _ => 0x3FF8000000000000) 0x3FF8000000000000 where
  shortest _ := ⟨by decide, ⟨0x31, [0x35], rfl, by decide⟩, by decide, by decide⟩
  strtod := rfl

def sampleValue : Json := .object [(ascii "a", .array [.numberInteger (-3),
  .numberFloat 0x3FF8000000000000]), (ascii "b", .string [0xC3, 0xA4])]

theorem dump_round_trip_sample :
    ∃ text, dumpText oneAndHalf 4 false sampleValue = .ok text ∧
      Json.parse (fun _ => 0x3FF8000000000000) text = .ok sampleValue := by
  have hsorted : Entries.Sorted [(ascii "a", Json.array [.numberInteger (-3),
      .numberFloat 0x3FF8000000000000]), (ascii "b", .string [0xC3, 0xA4])] :=
    List.pairwise_pair.mpr (by decide)
  have hstorable : sampleValue.Storable
      (FloatsReadBack oneAndHalf fun _ => 0x3FF8000000000000) :=
    ⟨hsorted, ⟨⟨by decide, by decide⟩, fun _ => readsBack_oneAndHalf, trivial⟩, trivial, trivial⟩
  have h := dump_round_trip false (show (4 : ℤ) ≤ 512 by decide) hstorable
  have hutf8 : sampleValue.utf8 = true := by
    simp (disch := decide) only [sampleValue, Json.utf8, Json.utf8Members, Json.utf8Elements,
      utf8_ascii]
    decide
  obtain ⟨text, hdump⟩ := h.1.mp hutf8
  exact ⟨text, hdump, (h.2.1 text hdump).1⟩

/-- The characters of a number leave room in `number_buffer`, which has 64. -/
theorem number_fits (ensureAscii : Bool) (indent : ℤ) (hnumber : j.isNumber = true)
    (hj : j.Storable (FloatsReadBack grisu2 strtod)) :
    ∃ text, dumpText grisu2 indent ensureAscii j = .ok text ∧ text.length ≤ 25 := by
  have hsigned : ∀ x : ℤ, x.natAbs < 2 ^ 64 → (signed x).length ≤ 25 := by
    intro x hx
    have hlen : (decimal x.natAbs).length ≤ 20 := decimal_length_le (by decide) (by omega)
    rw [signed, List.length_append]
    split_ifs
    · rw [List.length_singleton]
      omega
    · rw [List.length_nil]
      omega
  cases j with
  | numberInteger x =>
    obtain ⟨hlo, hhi⟩ := hj
    have hx : x.natAbs < 2 ^ 64 := by omega
    refine ⟨signed x, ?_, hsigned x hx⟩
    simp only [dumpText, dump, Sink.dumpInteger, dumpInteger_eq hx, List.nil_append]
  | numberUnsigned n =>
    have hx : (n : ℤ).natAbs < 2 ^ 64 := hj
    refine ⟨signed n, ?_, hsigned n hx⟩
    simp only [dumpText, dump, Sink.dumpInteger, dumpInteger_eq hx, List.nil_append]
  | numberFloat bits =>
    refine ⟨dumpFloat grisu2 bits [], by simp only [dumpText, dump], ?_⟩
    unfold dumpFloat
    split_ifs with hfinite
    · exact toChars_length (hj hfinite)
    · decide
  | _ => cases hnumber

theorem number_fits_oneAndHalf :
    ∃ text, dumpText oneAndHalf 4 false (.numberFloat 0x3FF8000000000000) = .ok text ∧
      text.length ≤ 25 :=
  number_fits false 4 rfl fun _ => readsBack_oneAndHalf

end Texts
end Rockets
