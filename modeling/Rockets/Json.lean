import Rockets.Bytes
import Rockets.OrderedMap

set_option autoImplicit false

/-!
# JSON values and the library that reads and writes them

The value type of `rockets_nlohmann::json`, with the member functions Rockets uses. A
text that `dump` produced is represented by the value it was made from. The parser of
network bytes and the order of values are a parameter: only their documented behaviour
is relied on.
-/
namespace Rockets

/-- Members are in key order, as in the library's `std::map`. The payload of a float is
its bit pattern and takes part in no computation. -/
inductive Json where
  | null
  | boolean (b : Bool)
  | numberInteger (n : ℤ)
  | numberUnsigned (n : ℕ)
  | numberFloat (bits : ℕ)
  | string (s : Bytes)
  | array (elements : List Json)
  | object (members : List (Bytes × Json))

/-- Exceptions of the JSON library, of the standard library and of the HTTP client. -/
inductive Exn where
  | parseError (what : Bytes)
  | typeError
  | outOfRange
  | badFunctionCall
  | futureError
  | invalidArgument
  deriving DecidableEq, Repr

section Utf8

def isContinuation (b : Fin 256) : Bool := 0x80 ≤ b && b ≤ 0xBF

/-- The second byte that may follow the first byte of a three byte sequence. -/
def isThreeByteLead (a b : Fin 256) : Bool :=
  (a = 0xE0 && 0xA0 ≤ b && b ≤ 0xBF) || (a = 0xED && 0x80 ≤ b && b ≤ 0x9F) ||
  (0xE1 ≤ a && a ≤ 0xEF && a ≠ 0xED && isContinuation b)

def isFourByteLead (a b : Fin 256) : Bool :=
  (a = 0xF0 && 0x90 ≤ b && b ≤ 0xBF) || (a = 0xF4 && 0x80 ≤ b && b ≤ 0x8F) ||
  (0xF1 ≤ a && a ≤ 0xF3 && isContinuation b)

/-- Well-formed UTF-8, as the decoder of `dump` accepts it. -/
def utf8 : Bytes → Bool
  | [] => true
  | a :: r => (a < 0x80 && utf8 r) || match r with
    | [] => false
    | b :: r => (0xC2 ≤ a && a ≤ 0xDF && isContinuation b && utf8 r) || match r with
      | [] => false
      | c :: r => (isThreeByteLead a b && isContinuation c && utf8 r) || match r with
        | [] => false
        | d :: r => isFourByteLead a b && isContinuation c && isContinuation d && utf8 r

theorem utf8_ascii {s : String} (h : (s.toList.all fun c => c.toNat < 0x80) = true) :
    utf8 (ascii s) = true := by
  unfold ascii
  generalize s.toList = cs at h
  induction cs with
  | nil => rfl
  | cons c cs ih =>
    simp only [List.all_cons, Bool.and_eq_true, decide_eq_true_eq] at h
    obtain ⟨hc, hcs⟩ := h
    have hlt : Fin.ofNat 256 c.toNat < 0x80 := by
      rw [Fin.lt_def, Fin.val_ofNat, Nat.mod_eq_of_lt (by omega)]
      exact hc
    rw [List.map_cons, utf8.eq_def]
    simp only [hlt, ih hcs, decide_true, Bool.and_self, Bool.true_or]

end Utf8

namespace Json

def isNull : Json → Bool
  | null => true
  | _ => false

def isObject : Json → Bool
  | object _ => true
  | _ => false

def isArray : Json → Bool
  | array _ => true
  | _ => false

def isString : Json → Bool
  | string _ => true
  | _ => false

def isNumberInteger : Json → Bool
  | numberInteger _ | numberUnsigned _ => true
  | _ => false

def isNumber : Json → Bool
  | numberInteger _ | numberUnsigned _ | numberFloat _ => true
  | _ => false

/-- `find`: members of objects only. -/
def find? (key : Bytes) : Json → Option Json
  | object members => Entries.find? key members
  | _ => none

def count (j : Json) (key : Bytes) : Bool := (j.find? key).isSome

/-- The subscript operator, used where the member is known to be there. -/
def at' (j : Json) (key : Bytes) : Json := (j.find? key).getD null

/-- An initializer list of members. -/
def ofMembers (members : List (Bytes × Json)) : Json :=
  object (members.foldl (fun es m => Entries.set m.1 m.2 es) [])

/-- `get<std::string>()`. -/
def getString : Json → Except Exn Bytes
  | string s => .ok s
  | _ => .error .typeError

mutual

/-- Every string in the value, keys included, is well-formed. -/
def utf8 : Json → Bool
  | string s => Rockets.utf8 s
  | array elements => utf8Elements elements
  | object members => utf8Members members
  | _ => true

def utf8Elements : List Json → Bool
  | [] => true
  | j :: js => utf8 j && utf8Elements js

def utf8Members : List (Bytes × Json) → Bool
  | [] => true
  | (k, j) :: ms => Rockets.utf8 k && utf8 j && utf8Members ms

end

@[simp] theorem null_utf8 : null.utf8 = true := rfl

mutual

/-- What the parser makes of the text of a value: the value, with nonnegative integers
stored as unsigned ones. -/
def reparsed : Json → Json
  | numberInteger n => if 0 ≤ n then numberUnsigned n.toNat else numberInteger n
  | array elements => array (reparsedElements elements)
  | object members => object (reparsedMembers members)
  | j => j

def reparsedElements : List Json → List Json
  | [] => []
  | j :: js => reparsed j :: reparsedElements js

def reparsedMembers : List (Bytes × Json) → List (Bytes × Json)
  | [] => []
  | (k, j) :: ms => (k, reparsed j) :: reparsedMembers ms

end

mutual

theorem utf8_reparsed : (j : Json) → j.reparsed.utf8 = j.utf8
  | null | boolean _ | numberUnsigned _ | numberFloat _ | string _ => by simp only [reparsed]
  | numberInteger n => by
    simp only [reparsed]
    split_ifs <;> simp only [utf8]
  | array elements => by simp only [reparsed, utf8, utf8Elements_reparsed elements]
  | object members => by simp only [reparsed, utf8, utf8Members_reparsed members]

theorem utf8Elements_reparsed : (js : List Json) →
    utf8Elements (reparsedElements js) = utf8Elements js
  | [] => rfl
  | j :: js => by
    simp only [reparsedElements, utf8Elements, utf8_reparsed j, utf8Elements_reparsed js]

theorem utf8Members_reparsed : (ms : List (Bytes × Json)) →
    utf8Members (reparsedMembers ms) = utf8Members ms
  | [] => rfl
  | (k, j) :: ms => by
    simp only [reparsedMembers, utf8Members, utf8_reparsed j, utf8Members_reparsed ms]

end

theorem find?_reparsed (key : Bytes) (j : Json) :
    j.reparsed.find? key = (j.find? key).map reparsed := by
  cases j with
  | object members =>
    simp only [reparsed, find?]
    induction members with
    | nil => rfl
    | cons m ms ih =>
      simp only [reparsedMembers, Entries.find?]
      split_ifs
      · rfl
      · exact ih
  | numberInteger n =>
    simp only [reparsed, find?]
    split_ifs <;> rfl
  | _ => rfl

theorem utf8_of_find? {j v : Json} {key : Bytes} (hj : j.utf8 = true)
    (hv : j.find? key = some v) : v.utf8 = true := by
  cases j with
  | object members =>
    simp only [utf8] at hj
    simp only [find?] at hv
    induction members with
    | nil => cases hv
    | cons m ms ih =>
      simp only [utf8Members, Bool.and_eq_true] at hj
      simp only [Entries.find?] at hv
      split_ifs at hv
      · obtain rfl := Option.some.inj hv
        exact hj.1.2
      · exact ih hj.2 hv
  | _ => cases hv

theorem utf8_at' {j : Json} (key : Bytes) (hj : j.utf8 = true) : (j.at' key).utf8 = true := by
  unfold at'
  cases h : j.find? key with
  | none => rfl
  | some v => exact utf8_of_find? hj h

theorem utf8Elements_append {js : List Json} {j : Json} (hjs : utf8Elements js = true)
    (hj : j.utf8 = true) : utf8Elements (js ++ [j]) = true := by
  induction js with
  | nil => simpa [utf8Elements] using hj
  | cons k ks ih =>
    simp only [utf8Elements, Bool.and_eq_true] at hjs
    simp only [List.cons_append, utf8Elements, hjs.1, ih hjs.2, Bool.and_self]

theorem utf8_of_mem {js : List Json} {j : Json} (hjs : utf8Elements js = true) (hj : j ∈ js) :
    j.utf8 = true := by
  induction js with
  | nil => cases hj
  | cons k ks ih =>
    simp only [utf8Elements, Bool.and_eq_true] at hjs
    rcases List.mem_cons.mp hj with rfl | hj
    · exact hjs.1
    · exact ih hjs.2 hj

theorem utf8Members_set {key : Bytes} {j : Json} {ms : List (Bytes × Json)}
    (hkey : Rockets.utf8 key = true) (hj : j.utf8 = true) (hms : utf8Members ms = true) :
    utf8Members (Entries.set key j ms) = true := by
  induction ms with
  | nil => simp [Entries.set, utf8Members, hkey, hj]
  | cons m ms ih =>
    simp only [utf8Members, Bool.and_eq_true] at hms
    simp only [Entries.set]
    split_ifs
    · simp [utf8Members, hkey, hj, hms]
    · simp [utf8Members, hkey, hj, hms]
    · simp [utf8Members, hms, ih hms.2]

theorem utf8_ofMembers {members : List (Bytes × Json)} (h : utf8Members members = true) :
    (ofMembers members).utf8 = true := by
  have hfold : ∀ es, utf8Members es = true → utf8Members members = true →
      utf8Members (members.foldl (fun es m => Entries.set m.1 m.2 es) es) = true := by
    clear h
    induction members with
    | nil => exact fun es hes _ => hes
    | cons m ms ih =>
      intro es hes hms
      simp only [utf8Members, Bool.and_eq_true] at hms
      exact ih _ (utf8Members_set hms.1.1 hms.1.2 hes) hms.2
  exact hfold [] rfl h

end Json

/-- A `std::string` that may be JSON text: bytes from outside, or the output of `dump` for
a value, which it returns only if the strings of the value are well-formed. -/
inductive Text where
  | bytes (b : Bytes)
  | dumped (j : Json) (utf8 : j.utf8 = true)

namespace Text

def isEmpty : Text → Bool
  | bytes b => b.isEmpty
  | dumped _ _ => false

end Text

/-- The throwing member function `dump(4)`. -/
def Json.dump (j : Json) : Except Exn Text :=
  if h : j.utf8 = true then .ok (.dumped j h) else .error .typeError

theorem Json.dump_ok {j : Json} (h : j.utf8 = true) : j.dump = .ok (.dumped j h) := dif_pos h

theorem Json.dump_error {j : Json} (h : j.utf8 = false) : j.dump = .error .typeError :=
  dif_neg (by simp [h])

/-- How the parser ends. Its lexer rejects ill-formed strings; the message of a parse error
may quote any byte of the input; a literal that overflows a double is out of range. -/
inductive Parsed where
  | value (j : Json) (utf8 : j.utf8 = true)
  | parseError (what : Bytes)
  | outOfRange

/-- The parts of the JSON library that are not embedded. Two values are the same key of
an ordered map if neither is less than the other. -/
structure JsonLib where
  parseBytes : Bytes → Parsed
  sameKey : Json → Json → Bool
  sameKey_refl : ∀ j, sameKey j j = true

namespace JsonLib
variable (lib : JsonLib)

/-- The parser undoes `dump`. -/
def parse : Text → Parsed
  | .bytes b => lib.parseBytes b
  | .dumped j h => .value j.reparsed (j.utf8_reparsed.trans h)

/-- The parser that throws. -/
def parseOrThrow (t : Text) : Except Exn Json :=
  match lib.parse t with
  | .value j _ => .ok j
  | .parseError what => .error (.parseError what)
  | .outOfRange => .error .outOfRange

/-- The parser that does not throw: nothing stands for a discarded value. -/
def parseOrDiscard (t : Text) : Option Json :=
  match lib.parse t with
  | .value j _ => some j
  | _ => none

/-- A library that knows the texts of a table and takes all others for malformed. -/
def ofTable (table : List (Bytes × Parsed)) : JsonLib where
  parseBytes b := (table.lookup b).getD (.parseError b)
  sameKey a b := match a, b with
    | .numberUnsigned m, .numberUnsigned n => m == n
    | .numberUnsigned _, _ | _, .numberUnsigned _ => false
    | .string s, .string t => s == t
    | .string _, _ | _, .string _ => false
    | _, _ => true
  sameKey_refl j := by cases j <;> simp

end JsonLib
end Rockets
