import Rockets.JsonGrammar
import Rockets.Loops

set_option autoImplicit false

/-!
# The lexer of the JSON library

It reads the bytes of a text one by one and can take back the last one. A token carries the
value that the getter of its type returns, and a parse error its message.
-/
namespace Rockets

def decimal (n : ℕ) : Bytes := (Nat.toDigits 10 n).map fun c => Fin.ofNat 256 c.toNat

namespace Lexing
open Grammar (hexValue)

structure Position where
  charsReadTotal : ℕ
  charsReadCurrentLine : ℕ
  linesRead : ℕ
  deriving DecidableEq

/-- The end of the file counts as a character too. -/
def Position.read (p : Position) (c : Option (Fin 256)) : Position :=
  if c = some 0x0A then ⟨p.charsReadTotal + 1, 0, p.linesRead + 1⟩
  else ⟨p.charsReadTotal + 1, p.charsReadCurrentLine + 1, p.linesRead⟩

def Position.unread (p : Position) : Position :=
  if p.charsReadCurrentLine = 0 then ⟨p.charsReadTotal - 1, 0, p.linesRead - 1⟩
  else ⟨p.charsReadTotal - 1, p.charsReadCurrentLine - 1, p.linesRead⟩

inductive Token where
  | literalTrue
  | literalFalse
  | literalNull
  | valueString (s : Bytes)
  | valueUnsigned (n : ℕ)
  | valueInteger (n : ℤ)
  | valueFloat (bits : ℕ)
  | beginArray
  | beginObject
  | endArray
  | endObject
  | nameSeparator
  | valueSeparator
  | parseError (message : Bytes)
  | endOfInput
  deriving DecidableEq

/-- The input is what the adapter has not delivered yet. Nothing is the end of the file. -/
structure Lexer where
  input : Bytes
  current : Option (Fin 256)
  nextUnget : Bool
  position : Position
  tokenString : Bytes
  tokenBuffer : Bytes
  deriving DecidableEq

namespace Lexer

def ofInput (input : Bytes) : Lexer := ⟨input, none, false, ⟨0, 0, 0⟩, [], []⟩

/-- The next character, or once more the one that was taken back. -/
def get (l : Lexer) : Lexer :=
  let current := if l.nextUnget then l.current else l.input.head?
  { input := if l.nextUnget then l.input else l.input.tail
    current := current
    nextUnget := false
    position := l.position.read current
    tokenString := l.tokenString ++ current.toList
    tokenBuffer := l.tokenBuffer }

def unget (l : Lexer) : Lexer :=
  { l with
    nextUnget := true
    position := l.position.unread
    tokenString := if l.current.isSome then l.tokenString.dropLast else l.tokenString }

def add (l : Lexer) (c : Fin 256) : Lexer := { l with tokenBuffer := l.tokenBuffer ++ [c] }

def addAll (l : Lexer) (cs : Bytes) : Lexer := { l with tokenBuffer := l.tokenBuffer ++ cs }

def reset (l : Lexer) : Lexer :=
  { l with tokenBuffer := [], tokenString := l.current.toList }

/-- What is still to be read, a character that was taken back included. -/
def rest (l : Lexer) : Bytes :=
  if l.nextUnget then l.current.toList ++ l.input else l.input

end Lexer

section Strings

/-- The digits of a code point, each with the shift of its place. -/
def getDigits : List ℕ → ℕ → Lexer → Option ℕ × Lexer
  | [], codepoint, l => (some codepoint, l)
  | factor :: factors, codepoint, l =>
    let l := l.get
    match l.current.bind hexValue with
    | none => (none, l)
    | some d => getDigits factors (codepoint + d <<< factor) l

def getCodepoint (l : Lexer) : Option ℕ × Lexer := getDigits [12, 8, 4, 0] 0 l

def bytesInRange : List (ℕ × ℕ) → Lexer → Bool × Lexer
  | [], l => (true, l)
  | (lo, hi) :: ranges, l =>
    let l := l.get
    match l.current with
    | none => (false, l)
    | some c => if lo ≤ c.val ∧ c.val ≤ hi then bytesInRange ranges (l.add c) else (false, l)

/-- The current character `c`, which has been read, is the first of a sequence. -/
def nextByteInRange (c : Fin 256) (ranges : List (ℕ × ℕ)) (l : Lexer) : Bool × Lexer :=
  bytesInRange ranges (l.add c)

def codepointBytes (codepoint : ℕ) : Bytes :=
  if codepoint < 0x80 then [Fin.ofNat 256 codepoint]
  else if codepoint ≤ 0x7FF then
    [Fin.ofNat 256 (0xC0 ||| codepoint >>> 6), Fin.ofNat 256 (0x80 ||| codepoint &&& 0x3F)]
  else if codepoint ≤ 0xFFFF then
    [Fin.ofNat 256 (0xE0 ||| codepoint >>> 12),
      Fin.ofNat 256 (0x80 ||| codepoint >>> 6 &&& 0x3F),
      Fin.ofNat 256 (0x80 ||| codepoint &&& 0x3F)]
  else
    [Fin.ofNat 256 (0xF0 ||| codepoint >>> 18),
      Fin.ofNat 256 (0x80 ||| codepoint >>> 12 &&& 0x3F),
      Fin.ofNat 256 (0x80 ||| codepoint >>> 6 &&& 0x3F),
      Fin.ofNat 256 (0x80 ||| codepoint &&& 0x3F)]

def hexMessage : Bytes := ascii "invalid string: '\\u' must be followed by 4 hex digits"

def pairMessage : Bytes :=
  ascii "invalid string: surrogate U+DC00..U+DFFF must be followed by U+DC00..U+DFFF"

def illFormedMessage : Bytes := ascii "invalid string: ill-formed UTF-8 byte"

/-- After the escape of a high surrogate: that of a low one must follow. -/
def scanPair (codepoint1 : ℕ) (l : Lexer) : (Token × Lexer) ⊕ Lexer :=
  if l.get.current ≠ some 0x5C then .inl (.parseError pairMessage, l.get)
  else if l.get.get.current ≠ some 0x75 then .inl (.parseError pairMessage, l.get.get)
  else match getCodepoint l.get.get with
  | (none, l) => .inl (.parseError hexMessage, l)
  | (some codepoint2, l) =>
    if 0xDC00 ≤ codepoint2 ∧ codepoint2 ≤ 0xDFFF then
      .inr (l.addAll (codepointBytes (codepoint1 <<< 10 + codepoint2 - 0x35FDC00)))
    else .inl (.parseError pairMessage, l)

def scanUnicode (l : Lexer) : (Token × Lexer) ⊕ Lexer :=
  match getCodepoint l with
  | (none, l) => .inl (.parseError hexMessage, l)
  | (some codepoint1, l) =>
    if 0xD800 ≤ codepoint1 ∧ codepoint1 ≤ 0xDBFF then scanPair codepoint1 l
    else if 0xDC00 ≤ codepoint1 ∧ codepoint1 ≤ 0xDFFF then
      .inl (.parseError
        (ascii "invalid string: surrogate U+DC00..U+DFFF must follow U+D800..U+DBFF"), l)
    else .inr (l.addAll (codepointBytes codepoint1))

def scanEscape (l : Lexer) : (Token × Lexer) ⊕ Lexer :=
  let l := l.get
  if l.current = some 0x22 then .inr (l.add 0x22)
  else if l.current = some 0x5C then .inr (l.add 0x5C)
  else if l.current = some 0x2F then .inr (l.add 0x2F)
  else if l.current = some 0x62 then .inr (l.add 0x08)
  else if l.current = some 0x66 then .inr (l.add 0x0C)
  else if l.current = some 0x6E then .inr (l.add 0x0A)
  else if l.current = some 0x72 then .inr (l.add 0x0D)
  else if l.current = some 0x74 then .inr (l.add 0x09)
  else if l.current = some 0x75 then scanUnicode l
  else .inl (.parseError
    (ascii "invalid string: forbidden character after backslash"), l)

def controlNames : List String := ["NUL", "SOH", "STX", "ETX", "EOT", "ENQ", "ACK", "BEL", "BS",
  "HT", "LF", "VT", "FF", "CR", "SO", "SI", "DLE", "DC1", "DC2", "DC3", "DC4", "NAK", "SYN",
  "ETB", "CAN", "EM", "SUB", "ESC", "FS", "GS", "RS", "US"]

def upperHexDigit (n : ℕ) : Fin 256 := Fin.ofNat 256 (if n < 10 then 0x30 + n else 0x37 + n)

def upperHexByte (b : Fin 256) : Bytes :=
  [upperHexDigit (b.val / 0x10), upperHexDigit (b.val % 0x10)]

def controlMessage (c : Fin 256) : Bytes :=
  ascii "invalid string: control character U+00" ++ upperHexByte c ++
  ascii (" (" ++ controlNames.getD c.val "" ++ ") must be escaped to \\u00") ++ upperHexByte c ++
  ascii (if c = 0x08 then " or \\b" else if c = 0x09 then " or \\t" else if c = 0x0A then " or \\n"
    else if c = 0x0C then " or \\f" else if c = 0x0D then " or \\r" else "")

/-- The ranges of the bytes that must follow the first one of a sequence. -/
def followRanges (c : Fin 256) : Option (List (ℕ × ℕ)) :=
  if 0xC2 ≤ c.val ∧ c.val ≤ 0xDF then some [(0x80, 0xBF)]
  else if c = 0xE0 then some [(0xA0, 0xBF), (0x80, 0xBF)]
  else if (0xE1 ≤ c.val ∧ c.val ≤ 0xEC) ∨ c = 0xEE ∨ c = 0xEF then
    some [(0x80, 0xBF), (0x80, 0xBF)]
  else if c = 0xED then some [(0x80, 0x9F), (0x80, 0xBF)]
  else if c = 0xF0 then some [(0x90, 0xBF), (0x80, 0xBF), (0x80, 0xBF)]
  else if 0xF1 ≤ c.val ∧ c.val ≤ 0xF3 then some [(0x80, 0xBF), (0x80, 0xBF), (0x80, 0xBF)]
  else if c = 0xF4 then some [(0x80, 0x8F), (0x80, 0xBF), (0x80, 0xBF)]
  else none

/-- One turn of the loop: a character of the string, or its end. -/
def scanStringTurn (l : Lexer) : (Token × Lexer) ⊕ Lexer :=
  let l := l.get
  match l.current with
  | none => .inl (.parseError (ascii "invalid string: missing closing quote"), l)
  | some c =>
    if c = 0x22 then .inl (.valueString l.tokenBuffer, l)
    else if c = 0x5C then scanEscape l
    else if c.val ≤ 0x1F then .inl (.parseError (controlMessage c), l)
    else if c.val ≤ 0x7F then .inr (l.add c)
    else match followRanges c with
    | none => .inl (.parseError illFormedMessage, l)
    | some ranges =>
      match nextByteInRange c ranges l with
      | (true, l) => .inr l
      | (false, l) => .inl (.parseError illFormedMessage, l)

end Strings

section Numbers
open Http (isDigit numeral)

/-- The labels of `scan_number`, named by what has just been read. -/
inductive NumberState where
  | minus
  | zero
  | any1
  | decimal1
  | decimal2
  | exponent
  | sign
  | any2
  deriving DecidableEq

inductive NumberType where
  | unsigned
  | integer
  | float
  deriving DecidableEq

structure NumberScan where
  state : NumberState
  type : NumberType
  lexer : Lexer

/-- Integers are tried first; what does not fit is read as a float. -/
def convert (strtod : Strtod) (type : NumberType) (tokenBuffer : Bytes) : Token :=
  match type with
  | .unsigned =>
    if numeral tokenBuffer < 2 ^ 64 then .valueUnsigned (numeral tokenBuffer)
    else .valueFloat (strtod tokenBuffer)
  | .integer =>
    if numeral tokenBuffer.tail ≤ 2 ^ 63 then .valueInteger (-numeral tokenBuffer.tail)
    else .valueFloat (strtod tokenBuffer)
  | .float => .valueFloat (strtod tokenBuffer)

/-- The label that the next character leads to, nothing if the number ends before it, and the
message if it must not. -/
def NumberState.next (state : NumberState) (c : Option (Fin 256)) :
    Except Bytes (Option NumberState) :=
  let digit := c.any isDigit
  let isExponent := c = some 0x65 ∨ c = some 0x45
  match state with
  | .minus =>
    if c = some 0x30 then .ok (some .zero) else if digit then .ok (some .any1)
    else .error (ascii "invalid number; expected digit after '-'")
  | .zero =>
    if c = some 0x2E then .ok (some .decimal1) else if isExponent then .ok (some .exponent)
    else .ok none
  | .any1 =>
    if digit then .ok (some .any1) else if c = some 0x2E then .ok (some .decimal1)
    else if isExponent then .ok (some .exponent) else .ok none
  | .decimal1 =>
    if digit then .ok (some .decimal2)
    else .error (ascii "invalid number; expected digit after '.'")
  | .decimal2 =>
    if digit then .ok (some .decimal2) else if isExponent then .ok (some .exponent) else .ok none
  | .exponent =>
    if c = some 0x2B ∨ c = some 0x2D then .ok (some .sign) else if digit then .ok (some .any2)
    else .error (ascii "invalid number; expected '+', '-', or digit after exponent")
  | .sign =>
    if digit then .ok (some .any2)
    else .error (ascii "invalid number; expected digit after exponent sign")
  | .any2 => if digit then .ok (some .any2) else .ok none

/-- The type is set on the way into a state. -/
def NumberState.type (state : NumberState) (type : NumberType) : NumberType :=
  match state with
  | .minus => .integer
  | .decimal1 | .exponent => .float
  | _ => type

def scanNumberTurn (strtod : Strtod) (s : NumberScan) : (Token × Lexer) ⊕ NumberScan :=
  let type := s.state.type s.type
  let l := s.lexer.get
  match s.state.next l.current with
  | .error message => .inl (.parseError message, l)
  | .ok none => .inl (convert strtod type l.tokenBuffer, l.unget)
  | .ok (some state) => .inr ⟨state, type, l.addAll l.current.toList⟩

end Numbers

def scanLiteral : Bytes → Token → Lexer → Token × Lexer
  | [], token, l => (token, l)
  | c :: cs, token, l =>
    let l := l.get
    if l.current = some c then scanLiteral cs token l
    else (.parseError (ascii "invalid literal"), l)

namespace Lexer
variable (l : Lexer)

theorem get_current : l.get.current = if l.nextUnget then l.current else l.input.head? := rfl

@[simp] theorem get_nextUnget : l.get.nextUnget = false := rfl

@[simp] theorem get_tokenBuffer : l.get.tokenBuffer = l.tokenBuffer := rfl

theorem get_rest : l.get.rest = if l.nextUnget then l.input else l.input.tail := rfl

@[simp] theorem get_total :
    l.get.position.charsReadTotal = l.position.charsReadTotal + 1 := by
  simp only [get, Position.read]
  generalize (if l.nextUnget then l.current else l.input.head?) = c
  split <;> rfl

@[simp] theorem unget_total :
    l.unget.position.charsReadTotal = l.position.charsReadTotal - 1 := by
  simp only [unget, Position.unread]
  split <;> rfl

theorem get_rest_le : l.get.rest.length ≤ l.rest.length := by
  rw [get_rest, rest]
  split_ifs
  · rw [List.length_append]
    omega
  · rw [List.length_tail]
    omega

theorem get_rest_lt {c : Fin 256} (h : l.get.current = some c) :
    l.get.rest.length < l.rest.length := by
  rw [get_current] at h
  rw [get_rest, rest]
  split_ifs at h ⊢
  · rw [h]
    simp
  · obtain ⟨t, ht⟩ := List.head?_eq_some_iff.mp h
    rw [ht]
    simp

theorem unget_rest : l.get.unget.rest = l.rest := by
  rw [show l.get.unget.rest = l.get.current.toList ++ l.get.rest from rfl, get_current,
    get_rest, rest]
  split_ifs
  · rfl
  · cases l.input <;> rfl

end Lexer

/-- A property of lexers that reading a character keeps, and everything else the scan functions
do to a lexer. -/
structure Kept (P : Lexer → Prop) : Prop where
  get : ∀ {l}, P l → P l.get
  buffer : ∀ {l} b, P l → P { l with tokenBuffer := b }
  reset : ∀ {l}, P l → P l.reset
  unget : ∀ {l}, P l → P l.get.unget

def left {σ : Type*} (lexer : σ → Lexer) : (Token × Lexer) ⊕ σ → Lexer
  | .inl r => r.2
  | .inr s => lexer s

namespace Kept
variable {P : Lexer → Prop} (k : Kept P) {l : Lexer}
include k

theorem add (c : Fin 256) (h : P l) : P (l.add c) := k.buffer _ h

theorem addAll (cs : Bytes) (h : P l) : P (l.addAll cs) := k.buffer _ h

theorem getDigits (factors : List ℕ) (codepoint : ℕ) (h : P l) :
    P (Lexing.getDigits factors codepoint l).2 := by
  induction factors generalizing codepoint l with
  | nil => exact h
  | cons factor factors ih =>
    rw [Lexing.getDigits]
    split
    · exact k.get h
    · exact ih _ (k.get h)

theorem bytesInRange (ranges : List (ℕ × ℕ)) (h : P l) :
    P (Lexing.bytesInRange ranges l).2 := by
  induction ranges generalizing l with
  | nil => exact h
  | cons range ranges ih =>
    rw [Lexing.bytesInRange]
    split
    · exact k.get h
    · split_ifs
      · exact ih (k.add _ (k.get h))
      · exact k.get h

theorem scanPair (codepoint1 : ℕ) (h : P l) : P (left id (Lexing.scanPair codepoint1 l)) := by
  unfold Lexing.scanPair
  split_ifs
  · exact k.get h
  · exact k.get (k.get h)
  · have hd := k.getDigits [12, 8, 4, 0] 0 (k.get (k.get h))
    split
    · next heq => rwa [show Lexing.getDigits _ _ _ = _ from heq] at hd
    · next heq =>
      rw [show Lexing.getDigits _ _ _ = _ from heq] at hd
      split_ifs
      · exact k.addAll _ hd
      · exact hd

theorem scanUnicode (h : P l) : P (left id (Lexing.scanUnicode l)) := by
  have hd := k.getDigits [12, 8, 4, 0] 0 h
  unfold Lexing.scanUnicode
  split
  · next heq => rwa [show Lexing.getDigits _ _ _ = _ from heq] at hd
  · next heq =>
    rw [show Lexing.getDigits _ _ _ = _ from heq] at hd
    split_ifs
    · exact k.scanPair _ hd
    · exact hd
    · exact k.addAll _ hd

theorem scanEscape (h : P l) : P (left id (Lexing.scanEscape l)) := by
  have hget := k.get h
  unfold Lexing.scanEscape
  dsimp only
  split_ifs
  any_goals exact k.add _ hget
  · exact k.scanUnicode hget
  · exact hget

/-- After the first character of the turn has been read. -/
theorem scanStringTurn (h : P l.get) : P (left id (Lexing.scanStringTurn l)) := by
  unfold Lexing.scanStringTurn
  dsimp only
  split
  · exact h
  · next c _ =>
    split_ifs
    · exact h
    · exact k.scanEscape h
    · exact h
    · exact k.add _ h
    split
    · exact h
    · next ranges _ =>
      have hd := k.bytesInRange ranges (k.add c h)
      split
      · next heq => rwa [show Lexing.bytesInRange _ _ = _ from heq] at hd
      · next heq => rwa [show Lexing.bytesInRange _ _ = _ from heq] at hd

theorem scanNumberTurn (strtod : Strtod) {s : NumberScan} (h : P s.lexer) :
    P (left NumberScan.lexer (Lexing.scanNumberTurn strtod s)) := by
  unfold Lexing.scanNumberTurn
  dsimp only
  split
  · exact k.get h
  · exact k.unget h
  · exact k.addAll _ (k.get h)

theorem scanLiteral (cs : Bytes) {token : Token} (h : P l) :
    P (Lexing.scanLiteral cs token l).2 := by
  induction cs generalizing l with
  | nil => exact h
  | cons c cs ih =>
    unfold Lexing.scanLiteral
    dsimp only
    split_ifs
    · exact ih (k.get h)
    · exact k.get h

end Kept

/-- Nothing that has been read comes back, but for the character taken back. -/
theorem kept_rest_le (n : ℕ) : Kept fun l => l.rest.length ≤ n where
  get h := (Lexer.get_rest_le _).trans h
  buffer _ h := h
  reset h := h
  unget h := by rwa [Lexer.unget_rest]

section Loops

theorem scanStringTurn_falls {l l' : Lexer} (h : scanStringTurn l = .inr l') :
    l'.rest.length < l.rest.length := by
  have hk := (kept_rest_le l.get.rest.length).scanStringTurn (l := l) le_rfl
  rw [h] at hk
  cases hc : l.get.current with
  | none => simp [scanStringTurn, hc] at h
  | some c => exact hk.trans_lt (l.get_rest_lt hc)

def scanStringLoop : Loop Lexer (Token × Lexer) where
  turn := scanStringTurn
  measure l := l.rest.length
  falls := scanStringTurn_falls

theorem scanNumberTurn_falls {strtod : Strtod} {s s' : NumberScan}
    (h : scanNumberTurn strtod s = .inr s') :
    s'.lexer.rest.length < s.lexer.rest.length := by
  unfold scanNumberTurn at h
  dsimp only at h
  split at h
  · cases h
  · cases h
  · next state hnext =>
    cases h
    cases hc : s.lexer.get.current with
    | none =>
      rw [hc] at hnext
      cases hs : s.state <;> simp [hs, NumberState.next] at hnext
    | some c => exact s.lexer.get_rest_lt hc

def scanNumberLoop (strtod : Strtod) : Loop NumberScan (Token × Lexer) where
  turn := scanNumberTurn strtod
  measure s := s.lexer.rest.length
  falls := scanNumberTurn_falls

def isBlankChar (c : Option (Fin 256)) : Bool :=
  c = some 0x20 || c = some 0x09 || c = some 0x0A || c = some 0x0D

/-- The first character that is no white space has been read afterwards. -/
def skipBlanksTurn (l : Lexer) : Lexer ⊕ Lexer :=
  if isBlankChar l.get.current then .inr l.get else .inl l.get

theorem skipBlanksTurn_falls {l l' : Lexer} (h : skipBlanksTurn l = .inr l') :
    l'.rest.length < l.rest.length := by
  unfold skipBlanksTurn at h
  split_ifs at h with hc
  cases h
  cases hcur : l.get.current with
  | none => simp [hcur, isBlankChar] at hc
  | some c => exact l.get_rest_lt hcur

def skipBlanksLoop : Loop Lexer Lexer where
  turn := skipBlanksTurn
  measure l := l.rest.length
  falls := skipBlanksTurn_falls

end Loops

def scanString (l : Lexer) : Token × Lexer := scanStringLoop.run l.reset

def scanNumber (strtod : Strtod) (c : Fin 256) (l : Lexer) : Token × Lexer :=
  let state := if c = 0x2D then NumberState.minus else if c = 0x30 then .zero else .any1
  (scanNumberLoop strtod).run ⟨state, .unsigned, l.reset.add c⟩

/-- Whether there is no byte order mark, or a whole one has been skipped. -/
def skipBom (l : Lexer) : Bool × Lexer :=
  if l.get.current = some 0xEF then
    if l.get.get.current = some 0xBB then (l.get.get.get.current = some 0xBF, l.get.get.get)
    else (false, l.get.get)
  else (true, l.get.unget)

def structural (c : Fin 256) : Option Token :=
  if c = 0x5B then some .beginArray
  else if c = 0x5D then some .endArray
  else if c = 0x7B then some .beginObject
  else if c = 0x7D then some .endObject
  else if c = 0x3A then some .nameSeparator
  else if c = 0x2C then some .valueSeparator
  else none

/-- A literal by its first character: the rest of its text and the token. -/
def literal (c : Fin 256) : Option (Bytes × Token) :=
  if c = 0x74 then some (ascii "rue", .literalTrue)
  else if c = 0x66 then some (ascii "alse", .literalFalse)
  else if c = 0x6E then some (ascii "ull", .literalNull)
  else none

/-- The token that starts with the current character. -/
def scanToken (strtod : Strtod) (l : Lexer) : Token × Lexer :=
  match l.current with
  | none => (.endOfInput, l)
  | some c =>
    match structural c with
    | some token => (token, l)
    | none =>
      match literal c with
      | some (cs, token) => scanLiteral cs token l
      | none =>
        if c = 0x22 then scanString l
        else if c = 0x2D ∨ Http.isDigit c = true then scanNumber strtod c l
        else if c = 0x00 then (.endOfInput, l)
        else (.parseError (ascii "invalid literal"), l)

def scan (strtod : Strtod) (l : Lexer) : Token × Lexer :=
  if l.position.charsReadTotal = 0 then
    match skipBom l with
    | (true, l) => scanToken strtod (skipBlanksLoop.run l)
    | (false, l) => (.parseError (ascii "invalid BOM; must be 0xEF 0xBB 0xBF if given"), l)
  else scanToken strtod (skipBlanksLoop.run l)

end Lexing
end Rockets
