import Rockets.JsonDom

set_option autoImplicit false

/-!
# Documents as the parser reads them

The parser accepts exactly the texts of the grammar and returns their values.
-/
namespace Rockets.Parsing
open Lexing Grammar
open NumberState (Ends)

section Tokens
variable {τ : Type} {strtod : Strtod} {p : Parser τ} {rest ws x r : Bytes} {token : Token}

/-- The last token has been read from the text that starts here. -/
def Reads (strtod : Strtod) (p : Parser τ) (rest : Bytes) : Prop :=
  ∃ l buf, At l rest buf ∧ scanNext strtod l = (p.lastToken, p.lexer)

/-- The lexer stands at the text that starts here. -/
def Stands (p : Parser τ) (rest : Bytes) : Prop := Started p.lexer ∧ ∃ buf, At p.lexer rest buf

theorem Stands.getToken (strtod : Strtod) (h : Stands p rest) : Reads strtod (p.getToken strtod) rest := by
  obtain ⟨hstarted, buf, hl⟩ := h
  exact ⟨p.lexer, buf, hl, (scan_of_started hstarted).symm⟩

theorem Reads.started (h : Reads strtod p rest) : Started p.lexer := by
  obtain ⟨l, -, -, hscan⟩ := h
  have hs := scanNext_started strtod l
  rwa [hscan] at hs

theorem Reads.lexeme (h : Reads strtod p rest) (hp : p.lastToken.Proper) :
    ∃ ws x r, rest = ws ++ (x ++ r) ∧ IsBlank ws ∧ Lexeme strtod p.lastToken x ∧
      Stands p r := by
  have hstarted := h.started
  obtain ⟨l, buf, hl, hscan⟩ := h
  obtain ⟨ws, x, r, buf', rfl, hws, hx, hl'⟩ := scanNext_sound hscan hp hl
  exact ⟨ws, x, r, rfl, hws, hx, hstarted, buf', hl'⟩

theorem Reads.complete (h : Reads strtod p (ws ++ (x ++ r))) (hws : IsBlank ws)
    (hx : Lexeme strtod token x) (hr : (∃ y, token = numeralToken strtod y) → Ends r.head?) :
    p.lastToken = token ∧ Stands p r := by
  have hstarted := h.started
  obtain ⟨l, buf, hl, hscan⟩ := h
  obtain ⟨l', buf', hscan', hl'⟩ := scanNext_complete hws hx hl hr
  obtain ⟨htoken, hlexer⟩ := Prod.mk.inj (hscan.symm.trans hscan')
  exact ⟨htoken, hstarted, buf', hlexer ▸ hl'⟩

/-- The character of a token that is one. -/
def structuralChar : Token → Option (Fin 256)
  | .beginArray => some 0x5B
  | .endArray => some 0x5D
  | .beginObject => some 0x7B
  | .endObject => some 0x7D
  | .nameSeparator => some 0x3A
  | .valueSeparator => some 0x2C
  | _ => none

theorem not_numeral (h : token.toJson = none) (y : Numeral) : token ≠ numeralToken strtod y := by
  intro heq
  rw [heq, toJson_numeralToken strtod] at h
  cases h

theorem lexeme_of_structural {c : Fin 256} (hc : structuralChar token = some c) :
    Lexeme strtod token x ↔ x = [c] := by
  constructor
  · intro h
    cases h with
    | number y =>
      have hjson := toJson_numeralToken strtod y
      cases htoken : numeralToken strtod y <;> rw [htoken] at hc hjson <;> cases hc <;> cases hjson
    | valueString => cases hc
    | _ =>
      cases hc
      try rfl
  · rintro rfl
    cases token <;> cases hc <;> constructor

theorem proper_of_structural {c : Fin 256} (hc : structuralChar token = some c) :
    token.Proper := by
  cases token <;> cases hc <;> simp [Token.Proper]

theorem Reads.char {c : Fin 256} (h : Reads strtod p rest)
    (hc : structuralChar p.lastToken = some c) :
    ∃ ws r, rest = ws ++ c :: r ∧ IsBlank ws ∧ Stands p r := by
  obtain ⟨ws, x, r, rfl, hws, hx, hl⟩ := h.lexeme (proper_of_structural hc)
  obtain rfl := (lexeme_of_structural hc).mp hx
  exact ⟨ws, r, rfl, hws, hl⟩

theorem Reads.char_complete {c : Fin 256} (token : Token) (h : Reads strtod p (ws ++ c :: r)) (hws : IsBlank ws)
    (hc : structuralChar token = some c) : p.lastToken = token ∧ Stands p r := by
  refine h.complete (x := [c]) hws ((lexeme_of_structural hc).mpr rfl) ?_
  rintro ⟨y, hy⟩
  exact absurd hy (not_numeral (by cases token <;> cases hc <;> rfl) y)

end Tokens
section Contexts
variable {τ : Type} {strtod : Strtod} {on : Event → τ → τ} {start : τ} {text : Bytes}
  {p q : Parser τ} {s : List Bool} {t v ws ws' rest : Bytes} {es : List Event} {j : Json}
  {token : Token}

theorem eventsElements_snoc (js : List Json) (j : Json) :
    eventsElements (js ++ [j]) = eventsElements js ++ events j := by
  induction js with
  | nil => simp [eventsElements]
  | cons k js ih => simp [eventsElements, ih]

theorem eventsMembers_snoc (ms : List (Bytes × Json)) (k : Bytes) (j : Json) :
    eventsMembers (ms ++ [(k, j)]) = eventsMembers ms ++ .key k :: events j := by
  induction ms with
  | nil => simp [eventsMembers]
  | cons m ms ih => simp [eventsMembers, ih]

/-- The text up to the place of a value, with the arrays and objects that are open there and the
events so far. -/
inductive Context (strtod : Strtod) : List Bool → Bytes → List Event → Prop where
  | root {bom : Bytes} (h : bom = [] ∨ bom = byteOrderMark) : Context strtod [] bom []
  | array {s : List Bool} {t ws : Bytes} {es : List Event} (h : Context strtod s t es)
    (hws : IsBlank ws) : Context strtod (true :: s) (t ++ (ws ++ [0x5B])) (es ++ [.startArray])
  | elements {s : List Bool} {t ws ts : Bytes} {es : List Event} {js : List Json}
    (h : Context strtod s t es) (hws : IsBlank ws) (hs : Elements strtod ts js) :
    Context strtod (true :: s) (t ++ (ws ++ 0x5B :: (ts ++ [0x2C])))
      (es ++ .startArray :: eventsElements js)
  | object {s : List Bool} {t ws k key : Bytes} {es : List Event} (h : Context strtod s t es)
    (hws : IsBlank ws) (hk : Key k key) :
    Context strtod (false :: s) (t ++ (ws ++ 0x7B :: k)) (es ++ [.startObject, .key key])
  | members {s : List Bool} {t ws ts k key : Bytes} {es : List Event}
    {ms : List (Bytes × Json)} (h : Context strtod s t es) (hws : IsBlank ws)
    (hs : Members strtod ts ms) (hk : Key k key) :
    Context strtod (false :: s) (t ++ (ws ++ 0x7B :: (ts ++ [0x2C] ++ k)))
      (es ++ .startObject :: (eventsMembers ms ++ [.key key]))

/-- A value is the last element so far of the innermost array. -/
theorem Context.element (h : Context strtod (true :: s) t es) (hws : IsBlank ws)
    (hv : Value strtod v j) (hws' : IsBlank ws') : ∃ t' ws0 ts es' js,
      Context strtod s t' es' ∧ IsBlank ws0 ∧ Elements strtod ts js ∧
      t ++ (ws ++ v ++ ws') = t' ++ (ws0 ++ 0x5B :: ts) ∧
      es ++ events j = es' ++ .startArray :: eventsElements js := by
  cases h with
  | array h hws0 =>
    exact ⟨_, _, _, _, _, h, hws0, .one hws hv hws', by simp, by simp [eventsElements]⟩
  | elements h hws0 hs =>
    exact ⟨_, _, _, _, _, h, hws0, .snoc hs hws hv hws', by simp,
      by simp [eventsElements_snoc]⟩

/-- A value is the last member so far of the innermost object. -/
theorem Context.member (h : Context strtod (false :: s) t es) (hws : IsBlank ws)
    (hv : Value strtod v j) (hws' : IsBlank ws') : ∃ t' ws0 ts es' ms,
      Context strtod s t' es' ∧ IsBlank ws0 ∧ Members strtod ts ms ∧
      t ++ (ws ++ v ++ ws') = t' ++ (ws0 ++ 0x7B :: ts) ∧
      es ++ events j = es' ++ .startObject :: eventsMembers ms := by
  cases h with
  | object h hws0 hk =>
    exact ⟨_, _, _, _, _, h, hws0, .one hk hws hv hws', by simp, by simp [eventsMembers]⟩
  | members h hws0 hs hk =>
    exact ⟨_, _, _, _, _, h, hws0, .snoc hs hk hws hv hws', by simp,
      by simp [eventsMembers_snoc]⟩

/-- The last token begins what comes in the context. -/
structure Expecting (strtod : Strtod) (on : Event → τ → τ) (start : τ) (text : Bytes)
    (p : Parser τ) (t : Bytes) (es : List Event) (rest : Bytes) : Prop where
  context : Context strtod p.states t es
  sax : p.sax = tell on es start
  text : text = t ++ rest
  reads : Reads strtod p rest

/-- A value has been parsed in the context. -/
structure Parsed (strtod : Strtod) (on : Event → τ → τ) (start : τ) (text : Bytes)
    (p : Parser τ) (t : Bytes) (es : List Event) (ws v : Bytes) (j : Json) (rest : Bytes) :
    Prop where
  context : Context strtod p.states t es
  blank : IsBlank ws
  value : Value strtod v j
  sax : p.sax = tell on (es ++ events j) start
  text : text = t ++ (ws ++ v) ++ rest
  stands : Stands p rest

def IsExpecting (strtod : Strtod) (on : Event → τ → τ) (start : τ) (text : Bytes)
    (p : Parser τ) : Prop := ∃ t es rest, Expecting strtod on start text p t es rest

def IsParsed (strtod : Strtod) (on : Event → τ → τ) (start : τ) (text : Bytes)
    (p : Parser τ) : Prop :=
  ∃ t es ws v j rest, Parsed strtod on start text p t es ws v j rest

/-- Between the turns. A first token that is none is not known to be read from a text. -/
def Between (strtod : Strtod) (on : Event → τ → τ) (start : τ) (text : Bytes)
    (p : Parser τ) : Prop :=
  if p.skip then IsParsed strtod on start text p
  else IsExpecting strtod on start text p ∨ ∃ m, p.lastToken = .parseError m

theorem between_of_expecting (hskip : p.skip = false)
    (h : IsExpecting strtod on start text p) : Between strtod on start text p := by
  rw [Between, hskip]
  exact .inl h

theorem between_of_parsed (hskip : p.skip = true) (h : IsParsed strtod on start text p) :
    Between strtod on start text p := by
  rw [Between, hskip]
  exact h

theorem scalar_of_lexeme {x : Bytes} (hx : Lexeme strtod token x) (hj : token.toJson = some j)
    (finite : ∀ bits, j = .numberFloat bits → isFinite bits = true) : Scalar strtod x j := by
  cases hx with
  | number y =>
    obtain rfl := Option.some.inj ((toJson_numeralToken strtod y).symm.trans hj)
    exact .number y finite
  | literalTrue => cases hj; exact .true
  | literalFalse => cases hj; exact .false
  | literalNull => cases hj; exact .null
  | valueString h => cases hj; exact .string h
  | _ => cases hj

/-- A token that is a value by itself is parsed in one step. -/
theorem parseValue_of_toJson (on : Event → τ → τ) (hj : p.lastToken.toJson = some j)
    (finite : ∀ bits, j = .numberFloat bits → isFinite bits = true) :
    ∃ e, events j = [e] ∧ p.parseValue strtod on = .parsed (p.emit on e) := by
  unfold Parser.parseValue
  cases hp : p.lastToken <;> rw [hp] at hj <;> cases hj
  case valueFloat bits => exact ⟨_, rfl, if_pos (finite bits rfl)⟩
  all_goals exact ⟨_, rfl, rfl⟩

theorem value_isNumber (strtod : Strtod) (y : Numeral) : (y.value strtod).isNumber = true := by
  unfold Numeral.value
  split_ifs <;> rfl

theorem string_ne_numeral {x : Bytes} (y : Numeral) :
    Token.valueString x ≠ numeralToken strtod y := by
  intro heq
  have hjson := toJson_numeralToken strtod y
  rw [← heq] at hjson
  have hnumber := value_isNumber strtod y
  rw [← Option.some.inj hjson] at hnumber
  cases hnumber

theorem Reads.key (h : Reads strtod p rest) (hkey : p.parseKey strtod on = .ok q) :
    ∃ k key r, rest = k ++ r ∧ Key k key ∧ Stands q r ∧ q.states = p.states ∧
      q.skip = p.skip ∧ q.sax = on (.key key) p.sax := by
  obtain ⟨s, hs, rfl, hsep⟩ := Parser.parseKey_eq_ok hkey
  obtain ⟨ws, x, r1, rfl, hws, hx, hl1⟩ := h.lexeme (by rw [hs]; simp [Token.Proper])
  rw [hs] at hx
  have hl1' : Stands (p.emit on (.key s)) r1 := hl1
  obtain ⟨ws', r2, rfl, hws', hl2⟩ := (hl1'.getToken strtod).char (c := 0x3A) (by rw [hsep]; rfl)
  generalize htoken : Token.valueString s = token at hx
  cases hx with
  | valueString hchars =>
    cases htoken
    exact ⟨_, s, r2, by simp, .intro hws hchars hws', hl2, rfl, rfl, rfl⟩
  | number y => exact absurd htoken (string_ne_numeral y)
  | _ => cases htoken

theorem proper_of_toJson (hj : token.toJson = some j) : token.Proper := by
  cases token <;> cases hj <;> simp [Token.Proper]

theorem Expecting.scalar {e : Event} (h : Expecting strtod on start text p t es rest)
    (hj : p.lastToken.toJson = some j) (finite : ∀ bits, j = .numberFloat bits →
      isFinite bits = true) (he : events j = [e]) :
    IsParsed strtod on start text (p.emit on e) := by
  obtain ⟨ws, x, r, hrest, hws, hx, hl⟩ := h.reads.lexeme (proper_of_toJson hj)
  refine ⟨t, es, ws, x, j, r, h.context, hws, .scalar (scalar_of_lexeme hx hj finite), ?_, ?_, hl⟩
  · rw [he, tell_append]
    exact congrArg (on e) h.sax
  · rw [h.text, hrest]
    simp

theorem Expecting.object (h : Expecting strtod on start text p t es rest)
    (htoken : p.lastToken = .beginObject) :
    (∀ q, p.parseObject strtod on = .parsed q →
      IsParsed strtod on start text q ∧ q.skip = p.skip) ∧
    ∀ q, p.parseObject strtod on = .again q →
      IsExpecting strtod on start text q ∧ q.skip = p.skip := by
  obtain ⟨ws, r, rfl, hws, hl⟩ := h.reads.char (c := 0x7B) (by rw [htoken]; rfl)
  have hl : Stands (p.emit on .startObject) r := hl
  have hnext := hl.getToken strtod
  have hsax : on .startObject p.sax = tell on (es ++ [.startObject]) start := by
    rw [tell_snoc]
    exact congrArg (on .startObject) h.sax
  unfold Parser.parseObject
  dsimp only
  split_ifs with hend
  · refine ⟨fun q hq => ?_, fun q hq => (by cases hq)⟩
    cases hq
    obtain ⟨ws', r', rfl, hws', hl'⟩ := hnext.char (c := 0x7D) (by rw [hend]; rfl)
    refine ⟨⟨t, es, ws, _, .object [], r', h.context, hws, .emptyObject hws', ?_, ?_, hl'⟩, rfl⟩
    · change on .endObject (on .startObject p.sax) = _
      rw [hsax, ← tell_snoc on, List.append_assoc]
      rfl
    · rw [h.text]
      simp
  · cases hkey : ((p.emit on .startObject).getToken strtod).parseKey strtod on with
    | error f => exact ⟨fun q hq => (by cases hq), fun q hq => (by cases hq)⟩
    | ok p' =>
      refine ⟨fun q hq => (by cases hq), fun q hq => ?_⟩
      cases hq
      obtain ⟨k, key, r', rfl, hk, hl', hstates, hskip, hsax'⟩ := hnext.key hkey
      have hl' : Stands (p'.push false) r' := hl'
      refine ⟨⟨t ++ (ws ++ 0x7B :: k), es ++ [.startObject, .key key], r', ?_, ?_, ?_,
        hl'.getToken strtod⟩, hskip⟩
      · change Context strtod (false :: p'.states) (t ++ (ws ++ 0x7B :: k))
          (es ++ [.startObject, .key key])
        rw [hstates]
        exact .object h.context hws hk
      · change p'.sax = _
        rw [hsax']
        change on (.key key) (on .startObject p.sax) = _
        rw [hsax, ← tell_snoc on, List.append_assoc]
        rfl
      · rw [h.text]
        simp

theorem Expecting.array (h : Expecting strtod on start text p t es rest)
    (htoken : p.lastToken = .beginArray) :
    (∀ q, p.parseArray strtod on = .parsed q →
      IsParsed strtod on start text q ∧ q.skip = p.skip) ∧
    ∀ q, p.parseArray strtod on = .again q →
      IsExpecting strtod on start text q ∧ q.skip = p.skip := by
  obtain ⟨ws, r, rfl, hws, hl⟩ := h.reads.char (c := 0x5B) (by rw [htoken]; rfl)
  have hl : Stands (p.emit on .startArray) r := hl
  have hnext := hl.getToken strtod
  have hsax : on .startArray p.sax = tell on (es ++ [.startArray]) start := by
    rw [tell_snoc]
    exact congrArg (on .startArray) h.sax
  unfold Parser.parseArray
  dsimp only
  split_ifs with hend
  · refine ⟨fun q hq => ?_, fun q hq => (by cases hq)⟩
    cases hq
    obtain ⟨ws', r', rfl, hws', hl'⟩ := hnext.char (c := 0x5D) (by rw [hend]; rfl)
    refine ⟨⟨t, es, ws, _, .array [], r', h.context, hws, .emptyArray hws', ?_, ?_, hl'⟩, rfl⟩
    · change on .endArray (on .startArray p.sax) = _
      rw [hsax, ← tell_snoc on, List.append_assoc]
      rfl
    · rw [h.text]
      simp
  · refine ⟨fun q hq => (by cases hq), fun q hq => ?_⟩
    cases hq
    exact ⟨⟨_, _, r, .array h.context hws, hsax, by rw [h.text]; simp, hnext⟩, rfl⟩

/-- What comes first of a value, or the whole value. -/
theorem Expecting.value (h : Expecting strtod on start text p t es rest) :
    (∀ q, p.parseValue strtod on = .parsed q →
      IsParsed strtod on start text q ∧ q.skip = p.skip) ∧
    ∀ q, p.parseValue strtod on = .again q →
      IsExpecting strtod on start text q ∧ q.skip = p.skip := by
  unfold Parser.parseValue
  split
  · next htoken => exact h.object htoken
  · next htoken => exact h.array htoken
  · next bits htoken =>
    split_ifs with hfinite
    · refine ⟨fun q hq => ?_, fun q hq => (by cases hq)⟩
      cases hq
      exact ⟨h.scalar (by rw [htoken]; rfl) (fun b hb => by cases hb; exact hfinite) rfl, rfl⟩
    · exact ⟨fun q hq => (by cases hq), fun q hq => (by cases hq)⟩
  case h_10 | h_11 => exact ⟨fun q hq => (by cases hq), fun q hq => (by cases hq)⟩
  all_goals
    next htoken =>
    refine ⟨fun q hq => ?_, fun q hq => (by cases hq)⟩
    cases hq
    exact ⟨h.scalar (by rw [htoken]; rfl) (by simp) rfl, rfl⟩

theorem Parsed.array (h : Parsed strtod on start text p t es ws v j rest)
    (hs : p.states = true :: s) (hskip : p.skip = false) :
    (p.evaluateState strtod on = .inr q → Between strtod on start text q) ∧
    p.evaluateState strtod on ≠ .inl (.ok q) := by
  have hnext := h.stands.getToken strtod
  have hcontext := h.context
  rw [hs] at hcontext
  unfold Parser.evaluateState
  rw [hs]
  dsimp only
  split_ifs with hcomma hend
  · refine ⟨fun hq => ?_, by simp⟩
    cases hq
    obtain ⟨ws', r, rfl, hws', hl⟩ := hnext.char (c := 0x2C) (by rw [hcomma]; rfl)
    obtain ⟨t', ws0, ts, es', js, hcontext', hws0, hes, htext, hevents⟩ :=
      hcontext.element h.blank h.value hws'
    refine between_of_expecting hskip ⟨t' ++ (ws0 ++ 0x5B :: (ts ++ [0x2C])), es' ++ .startArray :: eventsElements js,
      r, ?_, ?_, ?_, hl.getToken strtod⟩
    · change Context strtod p.states _ _
      rw [hs]
      exact .elements hcontext' hws0 hes
    · change p.sax = _
      rw [h.sax, hevents]
    · rw [h.text, show t ++ (ws ++ v) ++ (ws' ++ 0x2C :: r) = t ++ (ws ++ v ++ ws') ++ 0x2C :: r by
        simp, htext]
      simp
  · refine ⟨fun hq => ?_, by simp⟩
    cases hq
    obtain ⟨ws', r, rfl, hws', hl⟩ := hnext.char (c := 0x5D) (by rw [hend]; rfl)
    obtain ⟨t', ws0, ts, es', js, hcontext', hws0, hes, htext, hevents⟩ :=
      hcontext.element h.blank h.value hws'
    refine between_of_parsed rfl ⟨t', es', ws0, _, .array js, r, hcontext', hws0, .array hes, ?_, ?_, hl⟩
    · change on .endArray p.sax = _
      rw [h.sax, hevents, ← tell_snoc on, List.append_assoc]
      rfl
    · rw [h.text, show t ++ (ws ++ v) ++ (ws' ++ 0x5D :: r) = t ++ (ws ++ v ++ ws') ++ 0x5D :: r by
        simp, htext]
      simp
  · exact ⟨by simp, by simp⟩

theorem Parsed.object (h : Parsed strtod on start text p t es ws v j rest)
    (hs : p.states = false :: s) (hskip : p.skip = false) :
    (p.evaluateState strtod on = .inr q → Between strtod on start text q) ∧
    p.evaluateState strtod on ≠ .inl (.ok q) := by
  have hnext := h.stands.getToken strtod
  have hcontext := h.context
  rw [hs] at hcontext
  unfold Parser.evaluateState
  rw [hs]
  dsimp only
  split_ifs with hcomma hend
  · obtain ⟨ws', r, rfl, hws', hl⟩ := hnext.char (c := 0x2C) (by rw [hcomma]; rfl)
    obtain ⟨t', ws0, ts, es', ms, hcontext', hws0, hms, htext, hevents⟩ :=
      hcontext.member h.blank h.value hws'
    cases hkey : ((p.getToken strtod).getToken strtod).parseKey strtod on with
    | error f => exact ⟨by simp, by simp⟩
    | ok p' =>
      refine ⟨fun hq => ?_, by simp⟩
      cases hq
      obtain ⟨k, key, r', rfl, hk, hl', hstates, hskip', hsax⟩ := (hl.getToken strtod).key hkey
      refine between_of_expecting (hskip'.trans hskip) ⟨t' ++ (ws0 ++ 0x7B :: (ts ++ [0x2C] ++ k)),
        es' ++ .startObject :: (eventsMembers ms ++ [.key key]), r', ?_, ?_, ?_, hl'.getToken strtod⟩
      · change Context strtod p'.states _ _
        rw [hstates]
        change Context strtod p.states _ _
        rw [hs]
        exact .members hcontext' hws0 hms hk
      · change p'.sax = _
        rw [hsax]
        change on (.key key) p.sax = _
        rw [h.sax, hevents, ← tell_snoc on, List.append_assoc]
        rfl
      · rw [h.text, show t ++ (ws ++ v) ++ (ws' ++ 0x2C :: (k ++ r')) =
          t ++ (ws ++ v ++ ws') ++ 0x2C :: (k ++ r') by simp, htext]
        simp
  · refine ⟨fun hq => ?_, by simp⟩
    cases hq
    obtain ⟨ws', r, rfl, hws', hl⟩ := hnext.char (c := 0x7D) (by rw [hend]; rfl)
    obtain ⟨t', ws0, ts, es', ms, hcontext', hws0, hms, htext, hevents⟩ :=
      hcontext.member h.blank h.value hws'
    refine between_of_parsed rfl ⟨t', es', ws0, _, .object ms, r, hcontext', hws0, .object hms,
      ?_, ?_, hl⟩
    · change on .endObject p.sax = _
      rw [h.sax, hevents, ← tell_snoc on, List.append_assoc]
      rfl
    · rw [h.text, show t ++ (ws ++ v) ++ (ws' ++ 0x7D :: r) = t ++ (ws ++ v ++ ws') ++ 0x7D :: r by
        simp, htext]
      simp
  · exact ⟨by simp, by simp⟩

/-- What follows a value is parsed, or the value is the whole text. -/
theorem IsParsed.evaluateState (h : IsParsed strtod on start text p) (hskip : p.skip = false) :
    (∀ q, p.evaluateState strtod on = .inr q → Between strtod on start text q) ∧
    ∀ q, p.evaluateState strtod on = .inl (.ok q) →
      IsParsed strtod on start text q ∧ q.states = [] := by
  obtain ⟨t, es, ws, v, j, rest, h⟩ := h
  cases hs : p.states with
  | nil =>
    have hturn : p.evaluateState strtod on = .inl (.ok p) := by
      rw [Parser.evaluateState, hs]
    rw [hturn]
    refine ⟨by simp, fun q hq => ?_⟩
    cases hq
    exact ⟨⟨t, es, ws, v, j, rest, h⟩, hs⟩
  | cons b s =>
    cases b with
    | true => exact ⟨fun q => (h.array hs hskip).1, fun q hq => absurd hq (h.array hs hskip).2⟩
    | false => exact ⟨fun q => (h.object hs hskip).1, fun q hq => absurd hq (h.object hs hskip).2⟩

theorem IsParsed.evaluate (h : IsParsed strtod on start text p) :
    IsParsed strtod on start text { p with skip := false } := by
  obtain ⟨t, es, ws, v, j, rest, h⟩ := h
  exact ⟨t, es, ws, v, j, rest, h.context, h.blank, h.value, h.sax, h.text, h.stands⟩

theorem Between.turn (h : Between strtod on start text p) :
    (∀ q, p.turn strtod on = .inr q → Between strtod on start text q) ∧
    ∀ q, p.turn strtod on = .inl (.ok q) →
      IsParsed strtod on start text q ∧ q.states = [] := by
  cases hskip : p.skip with
  | true =>
    rw [Between, hskip] at h
    rw [Parser.turn_of_skip hskip]
    exact (IsParsed.evaluate h).evaluateState rfl
  | false =>
    rw [Between, hskip] at h
    rw [Parser.turn_of_value hskip]
    rcases h with ⟨t, es, rest, h⟩ | ⟨m, hm⟩
    · obtain ⟨hparsed, hagain⟩ := h.value
      cases hv : p.parseValue strtod on with
      | fail f => exact ⟨by simp, by simp⟩
      | again q =>
        obtain ⟨hq, hs⟩ := hagain q hv
        refine ⟨fun q' hq' => ?_, by simp⟩
        cases hq'
        exact between_of_expecting (hs.trans hskip) hq
      | parsed q =>
        obtain ⟨hq, hs⟩ := hparsed q hv
        exact hq.evaluateState (hs.trans hskip)
    · have hv : ∃ f, p.parseValue strtod on = .fail f := by
        unfold Parser.parseValue
        rw [hm]
        exact ⟨_, rfl⟩
      obtain ⟨f, hv⟩ := hv
      rw [hv]
      exact ⟨by simp, by simp⟩

theorem between_ofInput (text : Bytes) :
    Between strtod on start text (.ofInput strtod text start) := by
  cases hscan : scan strtod (.ofInput text) with
  | mk token l' =>
    have hp : Parser.ofInput strtod text start = ⟨l', token, [], false, start⟩ := by
      rw [Parser.ofInput, Parser.getToken, hscan]
    rw [hp]
    by_cases htoken : ∃ m, token = .parseError m
    · exact .inr htoken
    · obtain ⟨bom, rest, l1, hbom, rfl, hl1, hnext⟩ :=
        scan_first hscan fun m hm => htoken ⟨m, hm⟩
      exact between_of_expecting rfl ⟨bom, [], rest, .root hbom, rfl, rfl, l1, [], hl1, hnext⟩

theorem saxParseInternal_sound (h : (Parser.ofInput strtod text start).saxParseInternal strtod on
    = .ok q) : IsParsed strtod on start text q ∧ q.states = [] := by
  have hrun : ∀ q, (Parser.loop strtod on).run (.ofInput strtod text start) = .ok q →
      IsParsed strtod on start text q ∧ q.states = [] :=
    Loop.run_rule (L := Parser.loop strtod on) (I := Between strtod on start text)
      (Q := fun a => ∀ q, a = .ok q → IsParsed strtod on start text q ∧ q.states = [])
      (between_ofInput text) (fun p a hp hturn q hq => hp.turn.2 q (hturn.trans (by rw [hq])))
      (fun p p' hp hturn => hp.turn.1 p' hturn)
  exact hrun q h

/-- What a strict parser accepts is a document, and its handler is told the events of the
value. -/
theorem saxParse_sound (h : (Parser.ofInput strtod text start).saxParse strtod on = .ok q) :
    ∃ bom ws v ws' rest j, (bom = [] ∨ bom = byteOrderMark) ∧ IsBlank ws ∧ Value strtod v j ∧
      IsBlank ws' ∧ AtEnd rest ∧ text = bom ++ (ws ++ v ++ ws') ++ rest ∧
      q.sax = tell on (events j) start := by
  unfold Parser.saxParse at h
  split at h
  · cases h
  · next p hp =>
    dsimp only at h
    split_ifs at h with hend
    cases h
    obtain ⟨⟨t, es, ws, v, j, rest, hparsed⟩, hstates⟩ := saxParseInternal_sound hp
    have hcontext := hparsed.context
    rw [hstates] at hcontext
    cases hcontext with
    | root hbom =>
      obtain ⟨l, buf, hl, hscan⟩ := hparsed.stands.getToken strtod
      rw [hend] at hscan
      obtain ⟨ws', r, rfl, hws', hr⟩ := scanNext_end_sound hscan hl
      refine ⟨t, ws, v, ws', r, j, hbom, hparsed.blank, hparsed.value, hws', hr, ?_, ?_⟩
      · rw [hparsed.text]
        simp
      · exact hparsed.sax

end Contexts
end Rockets.Parsing
