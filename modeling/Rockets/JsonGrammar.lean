import Rockets.HttpChannel
import Rockets.Json
import Rockets.Utf8

set_option autoImplicit false

/-!
# The grammar of JSON texts

What a JSON text is, and which value it has. Objects keep their members as they are written;
what a repeated member means is said afterwards.
-/
namespace Rockets

abbrev Strtod := Bytes → ℕ

/-- The exponent of a double is not all ones. -/
def isFinite (bits : ℕ) : Bool := bits / 2 ^ 52 % 2 ^ 11 ≠ 2 ^ 11 - 1

namespace Grammar

section Strings

def hexValue (b : Fin 256) : Option ℕ :=
  if 0x30 ≤ b.val ∧ b.val ≤ 0x39 then some (b.val - 0x30)
  else if 0x41 ≤ b.val ∧ b.val ≤ 0x46 then some (b.val - 0x37)
  else if 0x61 ≤ b.val ∧ b.val ≤ 0x66 then some (b.val - 0x57)
  else none

inductive FourHex : Bytes → ℕ → Prop where
  | intro {a b c d : Fin 256} {i j k l : ℕ} (ha : hexValue a = some i) (hb : hexValue b = some j)
    (hc : hexValue c = some k) (hd : hexValue d = some l) :
    FourHex [a, b, c, d] (i * 0x1000 + j * 0x100 + k * 0x10 + l)

def shortEscape (b : Fin 256) : Option (Fin 256) :=
  if b = 0x22 then some 0x22
  else if b = 0x5C then some 0x5C
  else if b = 0x2F then some 0x2F
  else if b = 0x62 then some 0x08
  else if b = 0x66 then some 0x0C
  else if b = 0x6E then some 0x0A
  else if b = 0x72 then some 0x0D
  else if b = 0x74 then some 0x09
  else none

/-- One character of a string as it is written, and the bytes that it stands for. A code point
beyond the basic plane is escaped by a pair of surrogates. -/
inductive Character : Bytes → Bytes → Prop where
  | plain {n : ℕ} {x : Bytes} (h : Utf8.Encodes n x) (control : 0x20 ≤ n)
    (quote : n ≠ 0x22) (backslash : n ≠ 0x5C) : Character x x
  | short {e b : Fin 256} (h : shortEscape e = some b) : Character [0x5C, e] [b]
  | unicode {hex x : Bytes} {n : ℕ} (h : FourHex hex n) (hx : Utf8.Encodes n x) :
    Character ([0x5C, 0x75] ++ hex) x
  | pair {hex hex' x : Bytes} {n n' : ℕ} (h : FourHex hex n) (high : 0xD800 ≤ n ∧ n ≤ 0xDBFF)
    (h' : FourHex hex' n') (low : 0xDC00 ≤ n' ∧ n' ≤ 0xDFFF)
    (hx : Utf8.Encodes ((n - 0xD800) * 0x400 + (n' - 0xDC00) + 0x10000) x) :
    Character ([0x5C, 0x75] ++ hex ++ ([0x5C, 0x75] ++ hex')) x

inductive Characters : Bytes → Bytes → Prop where
  | nil : Characters [] []
  | cons {t x ts xs : Bytes} (h : Character t x) (hs : Characters ts xs) :
    Characters (t ++ ts) (x ++ xs)

end Strings

section Numbers
open Http (isDigit numeral)

/-- No digit stands after a leading zero. -/
def IsInteger (x : Bytes) : Prop :=
  x = [0x30] ∨ ∃ d ds, x = d :: ds ∧ d ≠ 0x30 ∧ x.all isDigit = true

def IsFraction (x : Bytes) : Prop := ∃ ds, x = 0x2E :: ds ∧ ds ≠ [] ∧ ds.all isDigit = true

def IsSign (x : Bytes) : Prop := x = [] ∨ x = [0x2B] ∨ x = [0x2D]

def IsExponent (x : Bytes) : Prop := ∃ e sign ds, x = e :: (sign ++ ds) ∧
  (e = 0x65 ∨ e = 0x45) ∧ IsSign sign ∧ ds ≠ [] ∧ ds.all isDigit = true

/-- A number as it is written: what makes it a float is a fraction or an exponent. -/
structure Numeral where
  negative : Bool
  integer : Bytes
  fraction : Bytes
  exponent : Bytes
  isInteger : IsInteger integer
  isFraction : fraction = [] ∨ IsFraction fraction
  isExponent : exponent = [] ∨ IsExponent exponent

namespace Numeral
variable (x : Numeral)

def text : Bytes := (if x.negative then [0x2D] else []) ++ x.integer ++ x.fraction ++ x.exponent

def isFloat : Bool := !(x.fraction.isEmpty && x.exponent.isEmpty)

/-- Integers that fit their type are kept exactly; the others are converted to floats. -/
def value (strtod : Strtod) : Json :=
  if x.isFloat then .numberFloat (strtod x.text)
  else if x.negative then
    if numeral x.integer ≤ 2 ^ 63 then .numberInteger (-numeral x.integer)
    else .numberFloat (strtod x.text)
  else if numeral x.integer < 2 ^ 64 then .numberUnsigned (numeral x.integer)
  else .numberFloat (strtod x.text)

end Numeral
end Numbers

def IsSpace (b : Fin 256) : Prop := b = 0x20 ∨ b = 0x09 ∨ b = 0x0A ∨ b = 0x0D

def IsBlank (ws : Bytes) : Prop := ∀ b ∈ ws, IsSpace b

inductive Scalar (strtod : Strtod) : Bytes → Json → Prop where
  | true : Scalar strtod (ascii "true") (.boolean true)
  | false : Scalar strtod (ascii "false") (.boolean false)
  | null : Scalar strtod (ascii "null") .null
  | string {t s : Bytes} (h : Characters t s) : Scalar strtod (0x22 :: (t ++ [0x22])) (.string s)
  | number (x : Numeral) (finite : ∀ bits, x.value strtod = .numberFloat bits →
    isFinite bits = true) : Scalar strtod x.text (x.value strtod)

inductive Key : Bytes → Bytes → Prop where
  | intro {ws t ws' s : Bytes} (hws : IsBlank ws) (h : Characters t s) (hws' : IsBlank ws') :
    Key (ws ++ 0x22 :: (t ++ 0x22 :: (ws' ++ [0x3A]))) s

mutual

inductive Value (strtod : Strtod) : Bytes → Json → Prop where
  | scalar {t : Bytes} {j : Json} (h : Scalar strtod t j) : Value strtod t j
  | emptyArray {ws : Bytes} (h : IsBlank ws) : Value strtod (0x5B :: (ws ++ [0x5D])) (.array [])
  | array {t : Bytes} {js : List Json} (h : Elements strtod t js) :
    Value strtod (0x5B :: (t ++ [0x5D])) (.array js)
  | emptyObject {ws : Bytes} (h : IsBlank ws) :
    Value strtod (0x7B :: (ws ++ [0x7D])) (.object [])
  | object {t : Bytes} {ms : List (Bytes × Json)} (h : Members strtod t ms) :
    Value strtod (0x7B :: (t ++ [0x7D])) (.object ms)

inductive Elements (strtod : Strtod) : Bytes → List Json → Prop where
  | one {ws t ws' : Bytes} {j : Json} (hws : IsBlank ws) (h : Value strtod t j)
    (hws' : IsBlank ws') : Elements strtod (ws ++ t ++ ws') [j]
  | snoc {ts ws t ws' : Bytes} {js : List Json} {j : Json} (hs : Elements strtod ts js)
    (hws : IsBlank ws) (h : Value strtod t j) (hws' : IsBlank ws') :
    Elements strtod (ts ++ [0x2C] ++ (ws ++ t ++ ws')) (js ++ [j])

inductive Members (strtod : Strtod) : Bytes → List (Bytes × Json) → Prop where
  | one {k s ws t ws' : Bytes} {j : Json} (hk : Key k s) (hws : IsBlank ws)
    (h : Value strtod t j) (hws' : IsBlank ws') :
    Members strtod (k ++ (ws ++ t ++ ws')) [(s, j)]
  | snoc {ts k s ws t ws' : Bytes} {ms : List (Bytes × Json)} {j : Json}
    (hs : Members strtod ts ms) (hk : Key k s) (hws : IsBlank ws) (h : Value strtod t j)
    (hws' : IsBlank ws') :
    Members strtod (ts ++ [0x2C] ++ (k ++ (ws ++ t ++ ws'))) (ms ++ [(s, j)])

end

mutual

/-- The members of an object by key: of members with one key the last one counts. -/
def collapse : Json → Json
  | .array js => .array (collapseElements js)
  | .object ms => .ofMembers (collapseMembers ms)
  | j => j

def collapseElements : List Json → List Json
  | [] => []
  | j :: js => collapse j :: collapseElements js

def collapseMembers : List (Bytes × Json) → List (Bytes × Json)
  | [] => []
  | (k, j) :: ms => (k, collapse j) :: collapseMembers ms

end

def byteOrderMark : Bytes := [0xEF, 0xBB, 0xBF]

/-- A whole text: a byte order mark may come first, and the text ends where the input does or
at a null character. -/
inductive Document (strtod : Strtod) : Bytes → Json → Prop where
  | intro {bom ws t ws' rest : Bytes} {j : Json} (hbom : bom = [] ∨ bom = byteOrderMark)
    (hws : IsBlank ws) (h : Value strtod t j) (hws' : IsBlank ws')
    (hrest : rest = [] ∨ rest.head? = some 0) :
    Document strtod (bom ++ (ws ++ t ++ ws') ++ rest) (collapse j)

end Grammar
end Rockets
