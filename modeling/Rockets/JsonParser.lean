import Rockets.JsonTokens

set_option autoImplicit false

/-!
# The parser of the JSON library

It turns tokens into events for a handler; the handler that builds a value keeps the places
of the arrays and objects that are open.
-/
namespace Rockets.Parsing
open Lexing

/-- What a handler is told; its answer is always to go on. -/
inductive Event where
  | null
  | boolean (b : Bool)
  | numberInteger (n : ℤ)
  | numberUnsigned (n : ℕ)
  | numberFloat (bits : ℕ)
  | string (s : Bytes)
  | startObject
  | key (s : Bytes)
  | endObject
  | startArray
  | endArray
  deriving DecidableEq

section Errors

inductive TokenType where
  | uninitialized
  | literalTrue
  | literalFalse
  | literalNull
  | valueString
  | valueUnsigned
  | valueInteger
  | valueFloat
  | beginArray
  | beginObject
  | endArray
  | endObject
  | nameSeparator
  | valueSeparator
  | parseError
  | endOfInput
  | literalOrValue
  deriving DecidableEq

def tokenTypeName : TokenType → Bytes
  | .uninitialized => ascii "<uninitialized>"
  | .literalTrue => ascii "true literal"
  | .literalFalse => ascii "false literal"
  | .literalNull => ascii "null literal"
  | .valueString => ascii "string literal"
  | .valueUnsigned | .valueInteger | .valueFloat => ascii "number literal"
  | .beginArray => ascii "'['"
  | .beginObject => ascii "'\x7b'"
  | .endArray => ascii "']'"
  | .endObject => ascii "'\x7d'"
  | .nameSeparator => ascii "':'"
  | .valueSeparator => ascii "','"
  | .parseError => ascii "<parse error>"
  | .endOfInput => ascii "end of input"
  | .literalOrValue => ascii "'[', '\x7b', or a literal"

def tokenType : Token → TokenType
  | .literalTrue => .literalTrue
  | .literalFalse => .literalFalse
  | .literalNull => .literalNull
  | .valueString _ => .valueString
  | .valueUnsigned _ => .valueUnsigned
  | .valueInteger _ => .valueInteger
  | .valueFloat _ => .valueFloat
  | .beginArray => .beginArray
  | .beginObject => .beginObject
  | .endArray => .endArray
  | .endObject => .endObject
  | .nameSeparator => .nameSeparator
  | .valueSeparator => .valueSeparator
  | .parseError _ => .parseError
  | .endOfInput => .endOfInput

/-- A control character by its number. -/
def escapeControl (c : Fin 256) : Bytes :=
  if c.val ≤ 0x1F then ascii "<U+00" ++ upperHexByte c ++ ascii ">" else [c]

/-- The bytes read since the last token began. -/
def getTokenString (l : Lexer) : Bytes := l.tokenString.flatMap escapeControl

def positionString (p : Position) : Bytes :=
  ascii " at line " ++ decimal (p.linesRead + 1) ++
  ascii ", column " ++ decimal p.charsReadCurrentLine

/-- The exceptions of the parser with their messages. -/
inductive Failure where
  | parseError (what : Bytes)
  | outOfRange (what : Bytes)
  deriving DecidableEq

/-- The error message of the lexer, or the token that was not expected. -/
def found (l : Lexer) : Token → Bytes
  | .parseError message => message ++ ascii "; last read: '" ++ getTokenString l ++ ascii "'"
  | token => ascii "unexpected " ++ tokenTypeName (tokenType token)

def expectation (expected : TokenType) : Bytes :=
  if expected = .uninitialized then [] else ascii "; expected " ++ tokenTypeName expected

def exceptionMessage (lastToken : Token) (l : Lexer) (expected : TokenType)
    (context : String) : Bytes :=
  ascii "syntax error while parsing " ++ ascii context ++ ascii " - " ++ found l lastToken ++
  expectation expected

end Errors

/-- Of the open arrays and objects, the innermost first, the states tell the arrays. After a
closing bracket the next turn skips to what may follow. -/
structure Parser (τ : Type) where
  lexer : Lexer
  lastToken : Token
  states : List Bool
  skip : Bool
  sax : τ

/-- After a turn's first part: the turn is over, or a value has been parsed. -/
inductive Outcome (τ : Type) where
  | fail (f : Failure)
  | again (p : Parser τ)
  | parsed (p : Parser τ)

namespace Parser
variable {τ : Type} (strtod : Strtod) (on : Event → τ → τ)

def getToken (p : Parser τ) : Parser τ :=
  { p with lexer := (scan strtod p.lexer).2, lastToken := (scan strtod p.lexer).1 }

def emit (e : Event) (p : Parser τ) : Parser τ := { p with sax := on e p.sax }

def push (array : Bool) (p : Parser τ) : Parser τ := { p with states := array :: p.states }

def syntaxError (p : Parser τ) (expected : TokenType) (context : String) : Failure :=
  .parseError (ascii "[json.exception.parse_error.101] parse error" ++
    positionString p.lexer.position ++ ascii ": " ++
    exceptionMessage p.lastToken p.lexer expected context)

/-- Key and colon; the key has been read. -/
def parseKey (p : Parser τ) : Except Failure (Parser τ) :=
  match p.lastToken with
  | .valueString s =>
    let p := (p.emit on (.key s)).getToken strtod
    if p.lastToken = .nameSeparator then .ok p
    else .error (p.syntaxError .nameSeparator "object separator")
  | _ => .error (p.syntaxError .valueString "object key")

def parseObject (p : Parser τ) : Outcome τ :=
  let p := (p.emit on .startObject).getToken strtod
  if p.lastToken = .endObject then .parsed (p.emit on .endObject)
  else match p.parseKey strtod on with
    | .error f => .fail f
    | .ok p => .again ((p.push false).getToken strtod)

def parseArray (p : Parser τ) : Outcome τ :=
  let p := (p.emit on .startArray).getToken strtod
  if p.lastToken = .endArray then .parsed (p.emit on .endArray)
  else .again (p.push true)

/-- The last token begins a value. -/
def parseValue (p : Parser τ) : Outcome τ :=
  match p.lastToken with
  | .beginObject => p.parseObject strtod on
  | .beginArray => p.parseArray strtod on
  | .valueFloat bits =>
    if isFinite bits then .parsed (p.emit on (.numberFloat bits))
    else .fail (.outOfRange (ascii "[json.exception.out_of_range.406] number overflow parsing '" ++
      getTokenString p.lexer ++ ascii "'"))
  | .literalFalse => .parsed (p.emit on (.boolean false))
  | .literalNull => .parsed (p.emit on .null)
  | .literalTrue => .parsed (p.emit on (.boolean true))
  | .valueInteger n => .parsed (p.emit on (.numberInteger n))
  | .valueString s => .parsed (p.emit on (.string s))
  | .valueUnsigned n => .parsed (p.emit on (.numberUnsigned n))
  | .parseError _ => .fail (p.syntaxError .uninitialized "value")
  | _ => .fail (p.syntaxError .literalOrValue "value")

/-- A closing bracket: what is around it comes next. -/
def close (e : Event) (states : List Bool) (p : Parser τ) : Parser τ :=
  { p.emit on e with states := states, skip := true }

/-- A value has been parsed. -/
def evaluateState (p : Parser τ) : Except Failure (Parser τ) ⊕ Parser τ :=
  match p.states with
  | [] => .inl (.ok p)
  | true :: states =>
    let p := p.getToken strtod
    if p.lastToken = .valueSeparator then .inr (p.getToken strtod)
    else if p.lastToken = .endArray then .inr (p.close on .endArray states)
    else .inl (.error (p.syntaxError .endArray "array"))
  | false :: states =>
    let p := p.getToken strtod
    if p.lastToken = .valueSeparator then
      match (p.getToken strtod).parseKey strtod on with
      | .error f => .inl (.error f)
      | .ok p => .inr (p.getToken strtod)
    else if p.lastToken = .endObject then .inr (p.close on .endObject states)
    else .inl (.error (p.syntaxError .endObject "object"))

def turn (p : Parser τ) : Except Failure (Parser τ) ⊕ Parser τ :=
  match if p.skip then .parsed { p with skip := false } else p.parseValue strtod on with
  | .fail f => .inl (.error f)
  | .again p => .inr p
  | .parsed p => p.evaluateState strtod on

end Parser
section Falls
variable {strtod : Strtod} {l : Lexer}

theorem skipBlanks_rest_lt {c : Fin 256} (h : (skipBlanksLoop.run l).current = some c) :
    (skipBlanksLoop.run l).rest.length < l.rest.length := by
  revert h
  refine Loop.run_rule (L := skipBlanksLoop) (I := fun s => s.rest.length ≤ l.rest.length)
    (Q := fun a => a.current = some c → a.rest.length < l.rest.length) le_rfl ?_ ?_
  · intro s a hs hturn hc
    change skipBlanksTurn s = _ at hturn
    unfold skipBlanksTurn at hturn
    split_ifs at hturn
    cases hturn
    exact (s.get_rest_lt hc).trans_le hs
  · intro s t hs hturn
    change skipBlanksTurn s = _ at hturn
    unfold skipBlanksTurn at hturn
    split_ifs at hturn
    cases hturn
    exact s.get_rest_le.trans hs

theorem skipBlanks_rest_le (l : Lexer) :
    (skipBlanksLoop.run l).rest.length ≤ l.rest.length :=
  (kept_rest_le l.rest.length).skipBlanks l.get_rest_le

theorem skipBom_rest_le (l : Lexer) : (skipBom l).2.rest.length ≤ l.rest.length := by
  have k := kept_rest_le l.rest.length
  have h1 := l.get_rest_le
  unfold skipBom
  split_ifs
  · exact k.get (k.get h1)
  · exact k.get h1
  · exact k.unget le_rfl

theorem scanNext_rest_le (l : Lexer) : (scanNext strtod l).2.rest.length ≤ l.rest.length :=
  (kept_rest_le l.rest.length).scanToken (skipBlanks_rest_le l)

theorem scanNext_rest_lt (h : (scanNext strtod l).1.Proper) :
    (scanNext strtod l).2.rest.length < l.rest.length := by
  unfold scanNext at h ⊢
  cases hc : (skipBlanksLoop.run l).current with
  | none =>
    rw [scanToken, hc] at h
    exact absurd rfl h.1
  | some c =>
    exact ((kept_rest_le _).scanToken le_rfl).trans_lt (skipBlanks_rest_lt hc)

/-- A scan is one that looks for no byte order mark, or finds a mark that is not whole. -/
theorem scan_cases (strtod : Strtod) (l : Lexer) :
    ∃ l1, l1.rest.length ≤ l.rest.length ∧
      (scan strtod l = scanNext strtod l1 ∨ ∃ m, scan strtod l = (.parseError m, l1)) := by
  unfold scan
  split_ifs
  · have hle := skipBom_rest_le l
    split
    · next l1 heq => exact ⟨l1, by rwa [heq] at hle, .inl rfl⟩
    · next l1 heq => exact ⟨l1, by rwa [heq] at hle, .inr ⟨_, rfl⟩⟩
  · exact ⟨l, le_rfl, .inl rfl⟩

theorem scan_rest_le (l : Lexer) : (scan strtod l).2.rest.length ≤ l.rest.length := by
  obtain ⟨l1, hle, heq | ⟨m, heq⟩⟩ := scan_cases strtod l
  · rw [heq]
    exact (scanNext_rest_le l1).trans hle
  · rwa [heq]

theorem scan_rest_lt (h : (scan strtod l).1.Proper) :
    (scan strtod l).2.rest.length < l.rest.length := by
  obtain ⟨l1, hle, heq | ⟨m, heq⟩⟩ := scan_cases strtod l
  · rw [heq] at h ⊢
    exact (scanNext_rest_lt h).trans_le hle
  · rw [heq] at h
    exact absurd rfl (h.2 m)

end Falls

namespace Parser
variable {τ : Type} {strtod : Strtod} {on : Event → τ → τ} {p q : Parser τ}

/-- A token that is none is the end of the run. -/
def weight (p : Parser τ) : ℕ :=
  2 * p.lexer.rest.length + match p.lastToken with
    | .endOfInput => 0
    | .parseError _ => 0
    | _ => 1

theorem weight_proper (h : p.lastToken.Proper) : p.weight = 2 * p.lexer.rest.length + 1 := by
  unfold weight
  split
  · next heq => exact absurd heq h.1
  · next m heq => exact absurd heq (h.2 m)
  · rfl

theorem weight_getToken_le (strtod : Strtod) (p : Parser τ) :
    (p.getToken strtod).weight ≤ 2 * p.lexer.rest.length := by
  by_cases h : (p.getToken strtod).lastToken.Proper
  · have hlt : (p.getToken strtod).lexer.rest.length < p.lexer.rest.length := scan_rest_lt h
    rw [weight_proper h]
    omega
  · have hle : (p.getToken strtod).lexer.rest.length ≤ p.lexer.rest.length := scan_rest_le _
    unfold weight
    split
    · omega
    · omega
    · next h1 h2 => exact absurd ⟨h1, h2⟩ h

theorem getToken_rest_lt (h : (p.getToken strtod).lastToken.Proper) :
    (p.getToken strtod).lexer.rest.length < p.lexer.rest.length := scan_rest_lt h

theorem parseKey_eq_ok (h : p.parseKey strtod on = .ok q) :
    ∃ s, p.lastToken = .valueString s ∧ q = (p.emit on (.key s)).getToken strtod ∧
      q.lastToken = .nameSeparator := by
  unfold parseKey at h
  split at h
  · next s hs =>
    dsimp only at h
    split_ifs at h with hsep
    cases h
    exact ⟨s, hs, rfl, hsep⟩
  · cases h

theorem weight_parseKey (h : p.parseKey strtod on = .ok q) (array : Bool) :
    ((q.push array).getToken strtod).weight < 2 * p.lexer.rest.length := by
  obtain ⟨s, -, rfl, hsep⟩ := parseKey_eq_ok h
  have hlt := getToken_rest_lt (p := p.emit on (.key s)) (by rw [hsep]; simp [Token.Proper])
  have hle := weight_getToken_le strtod
    (((p.emit on (.key s)).getToken strtod).push array)
  change _ < p.lexer.rest.length at hlt
  change _ ≤ 2 * ((p.emit on (.key s)).getToken strtod).lexer.rest.length at hle
  omega

theorem weight_parseObject (h : p.parseObject strtod on = .again q) :
    q.weight < 2 * p.lexer.rest.length := by
  unfold parseObject at h
  dsimp only at h
  split_ifs at h
  split at h
  · cases h
  · next p' hkey =>
    cases h
    have hle : ((p.emit on .startObject).getToken strtod).lexer.rest.length
      ≤ p.lexer.rest.length := scan_rest_le _
    have hlt := weight_parseKey hkey false
    omega

theorem rest_parseObject (h : p.parseObject strtod on = .parsed q) :
    q.lexer.rest.length ≤ p.lexer.rest.length := by
  unfold parseObject at h
  dsimp only at h
  split_ifs at h
  · cases h
    exact scan_rest_le p.lexer
  · split at h <;> cases h

theorem weight_parseArray (h : p.parseArray strtod on = .again q) :
    q.weight ≤ 2 * p.lexer.rest.length := by
  unfold parseArray at h
  dsimp only at h
  split_ifs at h
  cases h
  exact weight_getToken_le strtod (p.emit on .startArray)

theorem rest_parseArray (h : p.parseArray strtod on = .parsed q) :
    q.lexer.rest.length ≤ p.lexer.rest.length := by
  unfold parseArray at h
  dsimp only at h
  split_ifs at h
  cases h
  exact scan_rest_le p.lexer

theorem weight_parseValue (h : p.parseValue strtod on = .again q) : q.weight < p.weight := by
  unfold parseValue at h
  split at h
  · next htoken =>
    rw [p.weight_proper (by rw [htoken]; simp [Token.Proper])]
    have hlt := weight_parseObject h
    omega
  · next htoken =>
    rw [p.weight_proper (by rw [htoken]; simp [Token.Proper])]
    have hle := weight_parseArray h
    omega
  · split_ifs at h
  all_goals cases h

theorem rest_parseValue (h : p.parseValue strtod on = .parsed q) :
    q.lexer.rest.length ≤ p.lexer.rest.length := by
  unfold parseValue at h
  split at h
  · exact rest_parseObject h
  · exact rest_parseArray h
  · split_ifs at h
    cases h
    exact le_rfl
  all_goals first | cases h; done | (cases h; exact le_rfl)

theorem weight_close {states : List Bool} (e : Event) (h : p.lastToken.Proper)
    (hlt : p.lexer.rest.length < q.lexer.rest.length) :
    (p.close on e states).weight < 2 * q.lexer.rest.length := by
  rw [weight_proper (p := p.close on e states) h]
  change 2 * p.lexer.rest.length + 1 < _
  omega

theorem weight_evaluateState (h : p.evaluateState strtod on = .inr q) :
    q.weight < 2 * p.lexer.rest.length := by
  have proper : ∀ {token : Token}, token = .valueSeparator ∨ token = .endArray ∨
      token = .endObject → token.Proper := by
    rintro token (rfl | rfl | rfl) <;> simp [Token.Proper]
  unfold evaluateState at h
  split at h
  · cases h
  · dsimp only at h
    split_ifs at h with hcomma hend
    · cases h
      have hlt := getToken_rest_lt (proper (.inl hcomma))
      have hle := weight_getToken_le strtod (p.getToken strtod)
      omega
    · cases h
      have hlt := getToken_rest_lt (proper (.inr (.inl hend)))
      exact weight_close .endArray (proper (.inr (.inl hend))) hlt
  · dsimp only at h
    split_ifs at h with hcomma hend
    · have hlt := getToken_rest_lt (proper (.inl hcomma))
      have hle : ((p.getToken strtod).getToken strtod).lexer.rest.length
        ≤ (p.getToken strtod).lexer.rest.length := scan_rest_le _
      split at h
      · cases h
      · next p' hkey =>
        cases h
        have hkey : ((p'.getToken strtod)).weight < _ := weight_parseKey hkey false
        omega
    · cases h
      have hlt := getToken_rest_lt (proper (.inr (.inr hend)))
      exact weight_close .endObject (proper (.inr (.inr hend))) hlt

theorem turn_of_skip (h : p.skip = true) :
    p.turn strtod on = evaluateState strtod on { p with skip := false } := by
  rw [turn, if_pos h]

theorem turn_of_value (h : p.skip = false) : p.turn strtod on =
    match p.parseValue strtod on with
    | .fail f => .inl (.error f)
    | .again p => .inr p
    | .parsed p => p.evaluateState strtod on := by
  rw [turn, if_neg (by simp [h])]

theorem turn_falls (h : p.turn strtod on = .inr q) : q.weight < p.weight := by
  have hp : 2 * p.lexer.rest.length ≤ p.weight := by
    unfold weight
    omega
  cases hskip : p.skip with
  | true =>
    rw [turn_of_skip hskip] at h
    have hlt := weight_evaluateState h
    exact hlt.trans_le hp
  | false =>
    rw [turn_of_value hskip] at h
    split at h
    · cases h
    · next p' heq =>
      cases h
      exact weight_parseValue heq
    · next p' heq =>
      have hle := rest_parseValue heq
      have hlt := weight_evaluateState h
      omega

def loop (strtod : Strtod) (on : Event → τ → τ) :
    Loop (Parser τ) (Except Failure (Parser τ)) where
  turn := turn strtod on
  measure := weight
  falls := turn_falls

def ofInput (strtod : Strtod) (text : Bytes) (sax : τ) : Parser τ :=
  getToken strtod ⟨.ofInput text, .endOfInput, [], false, sax⟩

def saxParseInternal (strtod : Strtod) (on : Event → τ → τ) (p : Parser τ) :
    Except Failure (Parser τ) := (loop strtod on).run p

/-- A strict parser expects the end of the input after the value. -/
def saxParse (strtod : Strtod) (on : Event → τ → τ) (p : Parser τ) : Except Failure (Parser τ) :=
  match p.saxParseInternal strtod on with
  | .error f => .error f
  | .ok p =>
    let p := p.getToken strtod
    if p.lastToken = .endOfInput then .ok p
    else .error (p.syntaxError .endOfInput "value")

end Parser
end Rockets.Parsing
