import Rockets.HttpTypes

set_option autoImplicit false

/-!
# Headers as the channel reads them
-/
namespace Rockets.Http

def isDigit (b : Fin 256) : Bool := 48 ≤ b && b ≤ 57

def isSpace (b : Fin 256) : Bool := b = 32 || (9 ≤ b && b ≤ 13)

def numeral (digits : Bytes) : ℕ := digits.foldl (fun n d => 10 * n + (d.val - 48)) 0

/-- The digits after an optional sign, and whether the sign is a minus. -/
def splitSign : Bytes → Bool × Bytes
  | 45 :: s => (true, s)
  | 43 :: s => (false, s)
  | s => (false, s)

/-- `std::stoi`, nothing where it throws. -/
def stoi (s : Bytes) : Option ℤ :=
  let (negative, s) := splitSign (s.dropWhile isSpace)
  let digits := s.takeWhile isDigit
  let n : ℤ := if negative then -numeral digits else numeral digits
  if digits.isEmpty || n < -2 ^ 31 || 2 ^ 31 ≤ n then none else some n

namespace Channel

def maxHeaderLength : ℕ := 512

/-- A header that does not fit the buffer reads as empty. -/
def readHeader (header : Bytes) : Bytes :=
  if header.length + 1 ≥ maxHeaderLength then [] else header

/-- A negative number wraps around in the conversion to `size_t`. -/
def readContentLength (header : Bytes) : ℕ :=
  let header := readHeader header
  if header.isEmpty then 0
  else match stoi header with
    | none => 0
    | some n => (n % 2 ^ 64).toNat

end Channel

section Numerals

theorem isDigit_not_space {b : Fin 256} (h : isDigit b = true) : isSpace b = false := by
  revert b
  decide +kernel

theorem splitSign_of_digits {digits : Bytes} (h : digits.all isDigit = true) :
    splitSign digits = (false, digits) := by
  cases digits with
  | nil => rfl
  | cons d ds =>
    have hd : isDigit d = true := by
      simp only [List.all_cons, Bool.and_eq_true] at h
      exact h.1
    unfold splitSign
    split
    · rename_i heq
      obtain ⟨rfl, -⟩ := List.cons.inj heq
      cases hd
    · rename_i heq
      obtain ⟨rfl, -⟩ := List.cons.inj heq
      cases hd
    · rfl

theorem dropWhile_space_of_digits {digits : Bytes} (h : digits.all isDigit = true) :
    digits.dropWhile isSpace = digits := by
  cases digits with
  | nil => rfl
  | cons d ds =>
    simp only [List.all_cons, Bool.and_eq_true] at h
    simp [isDigit_not_space h.1]

theorem stoi_of_digits {digits : Bytes} (h : digits.all isDigit = true) (hne : digits ≠ []) :
    stoi digits = if numeral digits < 2 ^ 31 then some (numeral digits : ℤ) else none := by
  have htake : digits.takeWhile isDigit = digits :=
    List.takeWhile_eq_self_iff.mpr fun d hd => List.all_eq_true.mp h d hd
  have hnil : digits.isEmpty = false := by simpa using hne
  simp only [stoi, dropWhile_space_of_digits h, splitSign_of_digits h, htake, hnil,
    Bool.false_or, Bool.or_eq_true, decide_eq_true_eq, Bool.false_eq_true, if_false]
  by_cases hn : numeral digits < 2 ^ 31
  · rw [if_pos hn, if_neg (by omega)]
  · rw [if_neg hn, if_pos (by omega)]

theorem Channel.readContentLength_of_digits {digits : Bytes} (h : digits.all isDigit = true)
    (hne : digits ≠ []) : readContentLength digits =
      if digits.length < 511 ∧ numeral digits < 2 ^ 31 then numeral digits else 0 := by
  have hmax : digits.length + 1 ≥ maxHeaderLength ↔ ¬ digits.length < 511 := by
    unfold maxHeaderLength
    omega
  unfold readContentLength readHeader
  by_cases hlen : digits.length < 511
  · have hnil : digits.isEmpty = false := by simpa using hne
    rw [if_neg (fun h => hmax.mp h hlen)]
    simp only [hnil, hlen, true_and, stoi_of_digits h hne]
    by_cases hlt : numeral digits < 2 ^ 31
    · have hmod : (numeral digits : ℤ) % 2 ^ 64 = numeral digits :=
        Int.emod_eq_of_lt (by omega) (by omega)
      rw [if_pos hlt, if_pos hlt]
      simp only [hmod]
      rfl
    · rw [if_neg hlt, if_neg hlt]
      rfl
  · rw [if_pos (hmax.mpr hlen)]
    simp [hlen]

end Numerals
end Rockets.Http
