import Rockets.JsonDocuments

set_option autoImplicit false

/-!
# Every document is accepted

The parser reads a value of the grammar to its end and tells its handler the events of it. With
the other direction it follows that the grammar gives a text at most one value.
-/
namespace Rockets
namespace Parsing
open Lexing Grammar
open NumberState (Ends)

section Turns
variable {τ : Type} {strtod : Strtod} {on : Event → τ → τ} {p q : Parser τ}
  {rest ws ws' x r t k key : Bytes} {j : Json} {s : List Bool}

theorem run_of_parsed (hskip : p.skip = false) (h : p.parseValue strtod on = .parsed q)
    (hq : q.skip = false) : (Parser.loop strtod on).run p =
      (Parser.loop strtod on).run { q with skip := true } := by
  refine Loop.run_congr ?_
  change p.turn strtod on = Parser.turn strtod on { q with skip := true }
  rw [Parser.turn_of_value hskip, h, Parser.turn_of_skip rfl, ← hq]

theorem run_of_again (hskip : p.skip = false) (h : p.parseValue strtod on = .again q) :
    (Parser.loop strtod on).run p = (Parser.loop strtod on).run q := by
  refine Loop.run_inr (L := Parser.loop strtod on) ?_
  change p.turn strtod on = .inr q
  rw [Parser.turn_of_value hskip, h]

theorem run_of_evaluateState (hskip : p.skip = true)
    (h : Parser.evaluateState strtod on { p with skip := false } = .inr q) :
    (Parser.loop strtod on).run p = (Parser.loop strtod on).run q := by
  refine Loop.run_inr (L := Parser.loop strtod on) ?_
  change p.turn strtod on = .inr q
  rw [Parser.turn_of_skip hskip, h]

/-- What comes after a value of the grammar is no part of a number. -/
def Follows (r : Bytes) : Prop := r = [] ∨ ∃ c r', r = c :: r' ∧
  (IsSpace c ∨ c = 0x2C ∨ c = 0x5D ∨ c = 0x7D ∨ c = 0)

theorem Follows.ends (h : Follows r) : Ends r.head? := by
  rcases h with rfl | ⟨c, r', rfl, hc⟩
  · simp [Ends]
  · revert c
    unfold IsSpace Ends
    simp only [List.head?_cons]
    decide +kernel

theorem Follows.blank (hws : IsBlank ws) (h : Follows r) : Follows (ws ++ r) := by
  cases ws with
  | nil => exact h
  | cons b ws => exact .inr ⟨b, ws ++ r, rfl, .inl (hws b List.mem_cons_self)⟩

/-- The parser gets from where the text of a value begins to where it ends, and tells its handler
events on the way. -/
def Passes (strtod : Strtod) (on : Event → τ → τ) (p : Parser τ) (es : List Event)
    (states : List Bool) (sax : τ) (r : Bytes) : Prop :=
  ∃ q, q.skip = true ∧ q.states = states ∧ q.sax = tell on es sax ∧ Stands q r ∧
    (Parser.loop strtod on).run p = (Parser.loop strtod on).run q

theorem Passes.of_parsed {e : List Event} {sax : τ} (hskip : p.skip = false)
    (h : p.parseValue strtod on = .parsed q) (hq : q.skip = false) (hstates : q.states = s)
    (hsax : q.sax = tell on e sax) (hr : Stands q r) : Passes strtod on p e s sax r :=
  ⟨{ q with skip := true }, rfl, hstates, hsax, hr, run_of_parsed hskip h hq⟩

theorem lexeme_of_scalar (h : Scalar strtod t j) : ∃ token, Lexeme strtod token t ∧
    token.toJson = some j ∧ ∀ bits, j = .numberFloat bits → isFinite bits = true := by
  cases h with
  | true => exact ⟨_, .literalTrue, rfl, by simp⟩
  | false => exact ⟨_, .literalFalse, rfl, by simp⟩
  | null => exact ⟨_, .literalNull, rfl, by simp⟩
  | string h => exact ⟨_, .valueString h, rfl, by simp⟩
  | number x finite => exact ⟨_, .number x, toJson_numeralToken _ x, finite⟩

theorem scalar_passes (h : Scalar strtod t j) (hskip : p.skip = false) (hws : IsBlank ws)
    (hp : Reads strtod p (ws ++ (t ++ r))) (hr : Follows r) :
    Passes strtod on p (events j) p.states p.sax r := by
  obtain ⟨token, hx, hj, hfinite⟩ := lexeme_of_scalar h
  obtain ⟨rfl, hl⟩ := hp.complete hws hx fun _ => hr.ends
  obtain ⟨e, he, hv⟩ := parseValue_of_toJson on hj hfinite
  exact .of_parsed hskip hv hskip rfl (by rw [he]; rfl) hl

/-- A key is parsed up to the place of the member's value. -/
theorem key_passes (on : Event → τ → τ) (h : Key k key) (hp : Reads strtod p (k ++ r)) :
    ∃ q, p.parseKey strtod on = .ok q ∧ Stands q r ∧ q.states = p.states ∧ q.skip = p.skip ∧
      q.sax = on (.key key) p.sax := by
  cases h with
  | @intro ws t ws' s hws hchars hws' =>
    rw [show ws ++ 0x22 :: (t ++ 0x22 :: (ws' ++ [0x3A])) ++ r =
      ws ++ ((0x22 :: (t ++ [0x22])) ++ (ws' ++ 0x3A :: r)) by simp] at hp
    obtain ⟨htoken, hl⟩ := hp.complete hws (.valueString hchars)
      fun ⟨y, hy⟩ => absurd hy (string_ne_numeral y)
    have hl : Stands (p.emit on (.key key)) (ws' ++ 0x3A :: r) := hl
    obtain ⟨hsep, hl⟩ := (hl.getToken strtod).char_complete .nameSeparator hws' rfl
    refine ⟨(p.emit on (.key key)).getToken strtod, ?_, hl, rfl, rfl, rfl⟩
    simp only [Parser.parseKey, htoken]
    rw [if_pos hsep]

/-- The first character of a value. -/
theorem value_head (h : Value strtod t j) : ∃ c t', t = c :: t' ∧ ¬IsSpace c ∧ c ≠ 0x5D ∧
    c ≠ 0xEF := by
  cases h with
  | scalar h =>
    obtain ⟨token, hx, hj, -⟩ := lexeme_of_scalar h
    obtain ⟨c, t', rfl⟩ := List.exists_cons_of_ne_nil hx.ne_nil
    refine ⟨c, t', rfl, ?_, ?_⟩
    · rw [← isBlankChar_iff, hx.head]
      simp
    · generalize hx' : c :: t' = x at hx
      cases hx with
      | number y =>
        have hc := text_head hx'.symm
        clear * - hc
        revert c
        decide +kernel
      | literalTrue | literalFalse | literalNull | valueString =>
        obtain ⟨rfl, -⟩ := List.cons.inj hx'
        decide
      | _ => cases hj
  | _ => exact ⟨_, _, rfl, by simp [IsSpace], by decide, by decide⟩

theorem elements_head {ts : Bytes} {js : List Json} : Elements strtod ts js →
    ∃ ws c t', ts = ws ++ c :: t' ∧ IsBlank ws ∧ ¬IsSpace c ∧ c ≠ 0x5D
  | @Elements.one _ ws _ ws' _ hws h _ => by
    obtain ⟨c, t', rfl, hc, hne, -⟩ := value_head h
    exact ⟨ws, c, t' ++ ws', by simp, hws, hc, hne⟩
  | .snoc hs _ _ _ => by
    obtain ⟨ws, c, t', rfl, hws, hc, hne⟩ := elements_head hs
    exact ⟨ws, c, _, by simp only [List.append_assoc, List.cons_append]; rfl, hws, hc, hne⟩

/-- White space ends at the first character that is none. -/
theorem blank_unique {c d : Fin 256} {y : Bytes} (h : ws ++ c :: x = ws' ++ d :: y)
    (hws : IsBlank ws) (hws' : IsBlank ws') (hc : ¬IsSpace c) (hd : ¬IsSpace d) : c = d := by
  induction ws generalizing ws' with
  | nil =>
    cases ws' with
    | nil => exact (List.cons.inj h).1
    | cons b ws' => exact absurd ((List.cons.inj h).1 ▸ hws' b List.mem_cons_self) hc
  | cons b ws ih =>
    cases ws' with
    | nil => exact absurd ((List.cons.inj h).1 ▸ hws b List.mem_cons_self) hd
    | cons b' ws' =>
      exact ih (List.cons.inj h).2 (List.forall_mem_cons.mp hws).2 (List.forall_mem_cons.mp hws').2

theorem ne_endArray {ts : Bytes} {js : List Json} (h : Elements strtod ts js)
    (hp : Reads strtod p (ts ++ r)) : p.lastToken ≠ .endArray := by
  intro hend
  obtain ⟨ws, c, t', rfl, hws, hc, hne⟩ := elements_head h
  obtain ⟨ws', r', heq, hws', -⟩ := hp.char (c := 0x5D) (by rw [hend]; rfl)
  rw [List.append_assoc, List.cons_append] at heq
  exact hne (blank_unique heq hws hws' hc (by simp [IsSpace]))

end Turns

section Passes
variable {τ : Type} {strtod : Strtod} {on : Event → τ → τ} {p q : Parser τ} {sax : τ}
  {ws r : Bytes} {s : List Bool} {es fs : List Event}

/-- What may follow a value in an array. -/
theorem evaluateState_array (hs : p.states = true :: s) : p.evaluateState strtod on =
    if (p.getToken strtod).lastToken = .valueSeparator then
      .inr ((p.getToken strtod).getToken strtod)
    else if (p.getToken strtod).lastToken = .endArray then
      .inr ((p.getToken strtod).close on .endArray s)
    else .inl (.error ((p.getToken strtod).syntaxError .endArray "array")) := by
  unfold Parser.evaluateState
  simp only [hs]

theorem evaluateState_endObject (hs : p.states = false :: s)
    (hend : (p.getToken strtod).lastToken = .endObject) :
    p.evaluateState strtod on = .inr ((p.getToken strtod).close on .endObject s) := by
  unfold Parser.evaluateState
  simp only [hs]
  rw [if_neg (by rw [hend]; simp), if_pos hend]

theorem evaluateState_member (hs : p.states = false :: s)
    (hsep : (p.getToken strtod).lastToken = .valueSeparator)
    (hkey : ((p.getToken strtod).getToken strtod).parseKey strtod on = .ok q) :
    p.evaluateState strtod on = .inr (q.getToken strtod) := by
  unfold Parser.evaluateState
  simp only [hs]
  rw [if_pos hsep, hkey]

theorem Passes.trans (es : List Event) (sax : τ)
    (hrun : (Parser.loop strtod on).run p = (Parser.loop strtod on).run q)
    (h : Passes strtod on q fs s (tell on es sax) r) : Passes strtod on p (es ++ fs) s sax r := by
  obtain ⟨q', hskip, hstates, hsax, hr, hrun'⟩ := h
  refine ⟨q', hskip, hstates, ?_, hr, hrun.trans hrun'⟩
  rw [hsax, tell_append]

theorem Passes.endArray (h : Passes strtod on p es (true :: s) sax (ws ++ 0x5D :: r))
    (hws : IsBlank ws) : Passes strtod on p (es ++ [.endArray]) s sax r := by
  obtain ⟨q, hskip, hstates, hsax, hr, hrun⟩ := h
  have hr : Stands { q with skip := false } (ws ++ 0x5D :: r) := hr
  obtain ⟨htoken, hl⟩ := (hr.getToken strtod).char_complete .endArray hws rfl
  have hturn : Parser.evaluateState strtod on { q with skip := false } =
      .inr ((Parser.getToken strtod { q with skip := false }).close on .endArray s) := by
    rw [evaluateState_array (p := { q with skip := false }) hstates,
      if_neg (by rw [htoken]; simp), if_pos htoken]
  refine ⟨(Parser.getToken strtod { q with skip := false }).close on .endArray s, rfl, rfl, ?_, hl,
    hrun.trans (run_of_evaluateState hskip hturn)⟩
  rw [tell_snoc, ← hsax]
  rfl

theorem Passes.endObject (h : Passes strtod on p es (false :: s) sax (ws ++ 0x7D :: r))
    (hws : IsBlank ws) : Passes strtod on p (es ++ [.endObject]) s sax r := by
  obtain ⟨q, hskip, hstates, hsax, hr, hrun⟩ := h
  have hr : Stands { q with skip := false } (ws ++ 0x7D :: r) := hr
  obtain ⟨htoken, hl⟩ := (hr.getToken strtod).char_complete .endObject hws rfl
  have hturn : Parser.evaluateState strtod on { q with skip := false } =
      .inr ((Parser.getToken strtod { q with skip := false }).close on .endObject s) :=
    evaluateState_endObject (p := { q with skip := false }) hstates htoken
  refine ⟨(Parser.getToken strtod { q with skip := false }).close on .endObject s, rfl, rfl, ?_, hl,
    hrun.trans (run_of_evaluateState hskip hturn)⟩
  rw [tell_snoc, ← hsax]
  rfl

/-- A comma in an array: a value comes next. -/
theorem Passes.nextElement (h : Passes strtod on p es (true :: s) sax (ws ++ 0x2C :: r))
    (hws : IsBlank ws) :
    ∃ q, q.skip = false ∧ q.states = true :: s ∧ q.sax = tell on es sax ∧ Reads strtod q r ∧
      (Parser.loop strtod on).run p = (Parser.loop strtod on).run q := by
  obtain ⟨q, hskip, hstates, hsax, hr, hrun⟩ := h
  have hr : Stands { q with skip := false } (ws ++ 0x2C :: r) := hr
  obtain ⟨htoken, hl⟩ := (hr.getToken strtod).char_complete .valueSeparator hws rfl
  have hturn : Parser.evaluateState strtod on { q with skip := false } =
      .inr ((Parser.getToken strtod { q with skip := false }).getToken strtod) := by
    rw [evaluateState_array (p := { q with skip := false }) hstates, if_pos htoken]
  exact ⟨(Parser.getToken strtod { q with skip := false }).getToken strtod, rfl, hstates, hsax,
    hl.getToken strtod, hrun.trans (run_of_evaluateState hskip hturn)⟩

/-- A comma in an object: a key comes next, and a value after it. -/
theorem Passes.nextMember (h : Passes strtod on p es (false :: s) sax (ws ++ 0x2C :: r))
    (hws : IsBlank ws) :
    ∃ q, q.skip = false ∧ q.states = false :: s ∧ q.sax = tell on es sax ∧ Reads strtod q r ∧
      ∀ q', q.parseKey strtod on = .ok q' →
        (Parser.loop strtod on).run p = (Parser.loop strtod on).run (q'.getToken strtod) := by
  obtain ⟨q, hskip, hstates, hsax, hr, hrun⟩ := h
  have hr : Stands { q with skip := false } (ws ++ 0x2C :: r) := hr
  obtain ⟨htoken, hl⟩ := (hr.getToken strtod).char_complete .valueSeparator hws rfl
  refine ⟨(Parser.getToken strtod { q with skip := false }).getToken strtod, rfl, hstates, hsax,
    hl.getToken strtod, fun q' hkey => ?_⟩
  have hturn : Parser.evaluateState strtod on { q with skip := false } =
      .inr (q'.getToken strtod) :=
    evaluateState_member (p := { q with skip := false }) hstates htoken hkey
  exact hrun.trans (run_of_evaluateState hskip hturn)

theorem run_array (hskip : p.skip = false) (htoken : p.lastToken = .beginArray)
    (hend : ((p.emit on .startArray).getToken strtod).lastToken ≠ .endArray) :
    (Parser.loop strtod on).run p = (Parser.loop strtod on).run
      (((p.emit on .startArray).getToken strtod).push true) := by
  refine run_of_again hskip ?_
  unfold Parser.parseValue
  rw [htoken]
  exact if_neg hend

theorem run_object (hskip : p.skip = false) (htoken : p.lastToken = .beginObject)
    (hend : ((p.emit on .startObject).getToken strtod).lastToken ≠ .endObject)
    (hkey : ((p.emit on .startObject).getToken strtod).parseKey strtod on = .ok q) :
    (Parser.loop strtod on).run p = (Parser.loop strtod on).run
      ((q.push false).getToken strtod) := by
  refine run_of_again hskip ?_
  unfold Parser.parseValue
  rw [htoken]
  simp only [Parser.parseObject]
  rw [if_neg hend, hkey]

end Passes

section Values
variable {τ : Type} {strtod : Strtod} (on : Event → τ → τ)

mutual

theorem value_passes {t : Bytes} {j : Json} : Value strtod t j → ∀ (p : Parser τ) (ws r : Bytes),
    p.skip = false → IsBlank ws → Reads strtod p (ws ++ (t ++ r)) → Follows r →
    Passes strtod on p (events j) p.states p.sax r
  | .scalar h => fun _ _ _ hskip hws hp hr => scalar_passes h hskip hws hp hr
  | @Value.emptyArray _ ws0 h => fun p ws r hskip hws hp hr => by
    have hp : Reads strtod p (ws ++ 0x5B :: (ws0 ++ 0x5D :: r)) := by simpa using hp
    obtain ⟨htoken, hl⟩ := hp.char_complete .beginArray hws rfl
    have hl : Stands (p.emit on .startArray) (ws0 ++ 0x5D :: r) := hl
    obtain ⟨hend, hl⟩ := (hl.getToken strtod).char_complete .endArray h rfl
    have hv : p.parseValue strtod on =
        .parsed (((p.emit on .startArray).getToken strtod).emit on .endArray) := by
      unfold Parser.parseValue
      rw [htoken]
      exact if_pos hend
    exact .of_parsed hskip hv hskip rfl rfl hl
  | @Value.array _ ts js h => fun p ws r hskip hws hp hr => by
    have hp : Reads strtod p (ws ++ 0x5B :: (ts ++ 0x5D :: r)) := by simpa using hp
    obtain ⟨htoken, hl⟩ := hp.char_complete .beginArray hws rfl
    have hl : Stands (p.emit on .startArray) (ts ++ 0x5D :: r) := hl
    have hnext := hl.getToken strtod
    obtain ⟨ws', hws', hes⟩ := elements_passes h
      (((p.emit on .startArray).getToken strtod).push true) (0x5D :: r) p.states hskip rfl hnext
      (.inr ⟨_, r, rfl, by simp⟩)
    have hall := Passes.trans [.startArray] p.sax
      (run_array hskip htoken (ne_endArray h hnext)) hes
    exact hall.endArray hws'
  | @Value.emptyObject _ ws0 h => fun p ws r hskip hws hp hr => by
    have hp : Reads strtod p (ws ++ 0x7B :: (ws0 ++ 0x7D :: r)) := by simpa using hp
    obtain ⟨htoken, hl⟩ := hp.char_complete .beginObject hws rfl
    have hl : Stands (p.emit on .startObject) (ws0 ++ 0x7D :: r) := hl
    obtain ⟨hend, hl⟩ := (hl.getToken strtod).char_complete .endObject h rfl
    have hv : p.parseValue strtod on =
        .parsed (((p.emit on .startObject).getToken strtod).emit on .endObject) := by
      unfold Parser.parseValue
      rw [htoken]
      exact if_pos hend
    exact .of_parsed hskip hv hskip rfl rfl hl
  | @Value.object _ ts ms h => fun p ws r hskip hws hp hr => by
    have hp : Reads strtod p (ws ++ 0x7B :: (ts ++ 0x7D :: r)) := by simpa using hp
    obtain ⟨htoken, hl⟩ := hp.char_complete .beginObject hws rfl
    have hl : Stands (p.emit on .startObject) (ts ++ 0x7D :: r) := hl
    obtain ⟨q, ws', hkey, hws', hms⟩ := members_passes h
      ((p.emit on .startObject).getToken strtod) (0x7D :: r) hskip (hl.getToken strtod)
      (.inr ⟨_, r, rfl, by simp⟩)
    have hend : ((p.emit on .startObject).getToken strtod).lastToken ≠ .endObject := by
      obtain ⟨s, hs, -⟩ := Parser.parseKey_eq_ok hkey
      rw [hs]
      simp
    have hall := Passes.trans [.startObject] p.sax
      (run_object hskip htoken hend hkey) hms
    exact hall.endObject hws'

theorem elements_passes {ts : Bytes} {js : List Json} : Elements strtod ts js →
    ∀ (p : Parser τ) (r : Bytes) (s : List Bool), p.skip = false → p.states = true :: s →
      Reads strtod p (ts ++ r) → Follows r →
      ∃ ws, IsBlank ws ∧ Passes strtod on p (eventsElements js) (true :: s) p.sax (ws ++ r)
  | @Elements.one _ ws t ws' j hws h hws' => fun p r s hskip hs hp hr => by
    have hp : Reads strtod p (ws ++ (t ++ (ws' ++ r))) := by simpa using hp
    have hv := value_passes h p ws (ws' ++ r) hskip hws hp (hr.blank hws')
    refine ⟨ws', hws', ?_⟩
    rw [eventsElements, eventsElements, List.append_nil, ← hs]
    exact hv
  | @Elements.snoc _ ts ws t ws' js j hes hws h hws' =>
    fun p r s hskip hs hp hr => by
    have hp : Reads strtod p (ts ++ 0x2C :: (ws ++ (t ++ (ws' ++ r)))) := by simpa using hp
    obtain ⟨ws1, hws1, hpasses⟩ := elements_passes hes p (0x2C :: (ws ++ (t ++ (ws' ++ r)))) s hskip
      hs hp (.inr ⟨_, _, rfl, by simp⟩)
    obtain ⟨q, hskip, hstates, hsax, hq, hrun⟩ := hpasses.nextElement hws1
    have hv := value_passes h q ws (ws' ++ r) hskip hws hq (hr.blank hws')
    rw [hstates, hsax] at hv
    refine ⟨ws', hws', ?_⟩
    rw [eventsElements_snoc]
    exact .trans _ _ hrun hv

theorem members_passes {ts : Bytes} {ms : List (Bytes × Json)} : Members strtod ts ms →
    ∀ (p : Parser τ) (r : Bytes), p.skip = false → Reads strtod p (ts ++ r) → Follows r →
      ∃ q ws, p.parseKey strtod on = .ok q ∧ IsBlank ws ∧ Passes strtod on
        ((q.push false).getToken strtod) (eventsMembers ms) (false :: p.states) p.sax (ws ++ r)
  | @Members.one _ k key ws t ws' j hk hws h hws' =>
    fun p r hskip hp hr => by
    have hp : Reads strtod p (k ++ (ws ++ (t ++ (ws' ++ r)))) := by simpa using hp
    obtain ⟨q, hkey, hl, hstates, hskip', hsax⟩ := key_passes on hk hp
    have hl : Stands (q.push false) (ws ++ (t ++ (ws' ++ r))) := hl
    have hv := value_passes h ((q.push false).getToken strtod) ws (ws' ++ r)
      (hskip'.trans hskip) hws (hl.getToken strtod) (hr.blank hws')
    change Passes strtod on _ (events j) (false :: q.states) q.sax (ws' ++ r) at hv
    rw [hstates, hsax] at hv
    refine ⟨q, ws', hkey, hws', ?_⟩
    rw [eventsMembers, eventsMembers, List.append_nil]
    exact .trans [.key key] _ rfl hv
  | @Members.snoc _ ts k key ws t ws' ms j hms hk hws h hws' => fun p r hskip hp hr => by
    have hp : Reads strtod p (ts ++ 0x2C :: (k ++ (ws ++ (t ++ (ws' ++ r))))) := by simpa using hp
    obtain ⟨q, ws1, hkey, hws1, hpasses⟩ := members_passes hms p
      (0x2C :: (k ++ (ws ++ (t ++ (ws' ++ r))))) hskip hp (.inr ⟨_, _, rfl, by simp⟩)
    obtain ⟨q1, hskip1, hstates1, hsax1, hq1, hrun⟩ := hpasses.nextMember hws1
    obtain ⟨q2, hkey2, hl, hstates2, hskip2, hsax2⟩ := key_passes on hk hq1
    have hv := value_passes h (q2.getToken strtod) ws (ws' ++ r) (hskip2.trans hskip1) hws
      (hl.getToken strtod) (hr.blank hws')
    change Passes strtod on _ (events j) q2.states q2.sax (ws' ++ r) at hv
    rw [hstates2, hstates1, hsax2, hsax1, ← tell_snoc on] at hv
    refine ⟨q, ws', hkey, hws', ?_⟩
    rw [eventsMembers_snoc, ← List.singleton_append, ← List.append_assoc]
    exact .trans _ _ (hrun q2 hkey2) hv

end

variable {text bom ws v ws' rest : Bytes} {j j' : Json} {start : τ}

theorem follows_of_atEnd (h : AtEnd rest) : Follows rest := by
  cases rest with
  | nil => exact .inl rfl
  | cons c r =>
    rcases h with h | h
    · cases h
    · exact .inr ⟨c, r, rfl, by simp_all⟩

theorem head_of_value (hws : IsBlank ws) (h : Value strtod v j) :
    (ws ++ (v ++ rest)).head? ≠ some 0xEF := by
  cases ws with
  | nil =>
    obtain ⟨c, t', rfl, -, -, hc⟩ := value_head h
    simpa using hc
  | cons b ws =>
    have hb := hws b List.mem_cons_self
    rintro hb'
    rw [Option.some.inj hb'] at hb
    simp [IsSpace] at hb

theorem saxParse_complete (start : τ) (hbom : bom = [] ∨ bom = byteOrderMark) (hws : IsBlank ws)
    (h : Value strtod v j) (hws' : IsBlank ws') (hrest : AtEnd rest) :
    ∃ q, (Parser.ofInput strtod (bom ++ (ws ++ v ++ ws') ++ rest) start).saxParse strtod on =
      .ok q ∧ q.sax = tell on (events j) start := by
  rw [show bom ++ (ws ++ v ++ ws') ++ rest = bom ++ (ws ++ (v ++ (ws' ++ rest))) by simp]
  obtain ⟨l1, hl1, hscan⟩ := scan_first_complete strtod
    (ws ++ (v ++ (ws' ++ rest))) hbom fun _ => head_of_value hws h
  have hp : Reads strtod (Parser.ofInput strtod (bom ++ (ws ++ (v ++ (ws' ++ rest)))) start)
      (ws ++ (v ++ (ws' ++ rest))) := by
    refine ⟨l1, [], hl1, ?_⟩
    rw [← hscan]
    rfl
  obtain ⟨q, hskip, hstates, hsax, hq, hrun⟩ := value_passes on h _ _ _ rfl hws hp
    ((follows_of_atEnd hrest).blank hws')
  have hturn : (Parser.loop strtod on).run q = .ok { q with skip := false } := by
    refine Loop.run_inl (L := Parser.loop strtod on) ?_
    change q.turn strtod on = _
    rw [Parser.turn_of_skip hskip, Parser.evaluateState]
    simp only [hstates]
    rfl
  have hq : Stands { q with skip := false } (ws' ++ rest) := hq
  obtain ⟨l, buf, hl, hnext⟩ := hq.getToken strtod
  obtain ⟨l', hend⟩ := scanNext_end_complete strtod hws' hrest hl
  have htoken := (Prod.mk.inj (hnext.symm.trans hend)).1
  refine ⟨Parser.getToken strtod { q with skip := false }, ?_, hsax⟩
  unfold Parser.saxParse Parser.saxParseInternal
  rw [hrun, hturn]
  simp only
  rw [if_pos htoken]

end Values
end Parsing

section Documents
open Parsing Grammar
variable {strtod : Strtod} {text : Bytes} {j j' : Json}

/-- The parser accepts exactly the documents of the grammar. -/
theorem Json.parse_iff : Json.parse strtod text = .ok j ↔ Document strtod text j := by
  constructor
  · intro h
    unfold Json.parse at h
    split at h
    · cases h
    · next p hp =>
      cases h
      obtain ⟨bom, ws, v, ws', rest, j, hbom, hws, hv, hws', hrest, rfl, hsax⟩ := saxParse_sound hp
      rw [hsax, Dom.root_tell_events]
      exact .intro hbom hws hv hws' hrest
  · rintro ⟨hbom, hws, hv, hws', hrest⟩
    obtain ⟨q, hq, hsax⟩ := saxParse_complete Dom.on (.ofRoot .null) hbom hws hv hws'
      hrest
    unfold Json.parse
    rw [hq]
    simp only [hsax, Dom.root_tell_events]

/-- A text has at most one value. -/
theorem Grammar.Document.unique (h : Document strtod text j) (h' : Document strtod text j') :
    j = j' :=
  Except.ok.inj ((Json.parse_iff.mpr h).symm.trans (Json.parse_iff.mpr h'))

/-- Whatever the text, the parser ends, and it returns the one value of the text if there is one. -/
theorem Json.parse_decides (strtod : Strtod) (text : Bytes) :
    (∀ j, Json.parse strtod text = .ok j ↔ Document strtod text j) ∧
      ((∃ j, Json.parse strtod text = .ok j) ↔ ∃! j, Document strtod text j) := by
  refine ⟨fun j => parse_iff, ?_, ?_⟩
  · rintro ⟨j, h⟩
    exact ⟨j, parse_iff.mp h, fun j' h' => h'.unique (parse_iff.mp h)⟩
  · rintro ⟨j, h, -⟩
    exact ⟨j, parse_iff.mpr h⟩

end Documents
end Rockets
