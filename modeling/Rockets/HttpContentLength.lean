import Rockets.HttpClient
import Rockets.HttpConnection

set_option autoImplicit false

/-!
# Announced lengths

Which Content-Length headers are read as the length they announce, and what depends on it on
both sides of a connection.
-/
namespace Rockets.Http

def isNumeral (header : Bytes) : Bool := !header.isEmpty && header.all isDigit

def announced (header : Bytes) : ℕ := if isNumeral header then numeral header else 0

def leadingDigits (s : Bytes) : Bytes := (splitSign (s.dropWhile isSpace)).2.takeWhile isDigit

/-- The number that begins a string; 0 if there are no digits. -/
def leadingNumber (s : Bytes) : ℤ :=
  if (splitSign (s.dropWhile isSpace)).1 then -numeral (leadingDigits s)
  else numeral (leadingDigits s)

/-- A length is read as it was announced: a body that was announced is expected by the server
and by the client, and the server reserves no more than was announced. No string holds a body of
2^63 bytes, so it is left open what a numeral from there on is read as. -/
structure ReadAsAnnounced (header : Bytes) : Prop where
  numeral : isNumeral header = true → Http.numeral header < 2 ^ 63 →
    Channel.readContentLength header = Http.numeral header
  other : isNumeral header = false → Channel.readContentLength header = 0
  server : ∀ m, m = some .post ∨ m = some .put ∨ m = some .patch → 0 < announced header →
    Http.numeral header < 2 ^ 63 → canHaveHttpBody m (Channel.readContentLength header) = true
  client : ∀ (r : Client.RequestHandler) (head : Client.Head), head.contentLength = header →
    0 < announced header → Http.numeral header < 2 ^ 63 →
    (r.readResponseHeaders head).hasResponseBody = true
  reserved : Channel.readContentLength header ≤ announced header

section Reading
variable {header : Bytes}

theorem stoi_eq (s : Bytes) : stoi s =
    if (leadingDigits s).isEmpty || leadingNumber s < -2 ^ 31 || 2 ^ 31 ≤ leadingNumber s then none
    else some (leadingNumber s) := rfl

theorem leadingNumber_of_isEmpty {s : Bytes} (h : (leadingDigits s).isEmpty = true) :
    leadingNumber s = 0 := by
  rw [leadingNumber, List.isEmpty_iff.mp h]
  split_ifs <;> rfl

theorem readContentLength_eq (h : header.length < 511) : Channel.readContentLength header =
    if -2 ^ 31 ≤ leadingNumber header ∧ leadingNumber header < 2 ^ 31 then
      (leadingNumber header % 2 ^ 64).toNat else 0 := by
  have hfits : ¬ header.length + 1 ≥ Channel.maxHeaderLength := by
    unfold Channel.maxHeaderLength
    omega
  unfold Channel.readContentLength Channel.readHeader
  rw [if_neg hfits]
  cases header with
  | nil => rfl
  | cons b bs =>
    simp only [List.isEmpty_cons, Bool.false_eq_true, if_false]
    rw [stoi_eq]
    cases hdigits : (leadingDigits (b :: bs)).isEmpty with
    | true =>
      rw [leadingNumber_of_isEmpty hdigits]
      rfl
    | false =>
      simp only [Bool.false_or, Bool.or_eq_true, decide_eq_true_eq]
      by_cases hint : -2 ^ 31 ≤ leadingNumber (b :: bs) ∧ leadingNumber (b :: bs) < 2 ^ 31
      · rw [if_pos hint, if_neg (by omega)]
      · rw [if_neg hint, if_pos (by omega)]

theorem leadingNumber_of_isNumeral (h : isNumeral header = true) :
    leadingNumber header = numeral header := by
  simp only [isNumeral, Bool.and_eq_true] at h
  have htake : header.takeWhile isDigit = header :=
    List.takeWhile_eq_self_iff.mpr fun d hd => List.all_eq_true.mp h.2 d hd
  simp only [leadingNumber, leadingDigits, dropWhile_space_of_digits h.2, splitSign_of_digits h.2,
    htake, Bool.false_eq_true, if_false]

end Reading

section Main
variable {header : Bytes}

/-- The condition on a header: a numeral is an `int` (or beyond all sizes), and anything
else begins with no number, with 0 or with a number that is no `int`. -/
def Unambiguous (header : Bytes) : Prop :=
  if isNumeral header then numeral header < 2 ^ 31 ∨ 2 ^ 63 ≤ numeral header
  else leadingNumber header = 0 ∨ leadingNumber header < -2 ^ 31 ∨ 2 ^ 31 ≤ leadingNumber header

instance (header : Bytes) : Decidable (Unambiguous header) := by
  unfold Unambiguous
  infer_instance

theorem readAsAnnounced_of_length (hlength : isNumeral header = true → numeral header < 2 ^ 63 →
      Channel.readContentLength header = numeral header)
    (hzero : isNumeral header = false → Channel.readContentLength header = 0)
    (hlarge : 2 ^ 63 ≤ numeral header → Channel.readContentLength header = 0) :
    ReadAsAnnounced header := by
  have hpos (hannounced : 0 < announced header) (hlt : numeral header < 2 ^ 63) :
      0 < Channel.readContentLength header := by
    unfold announced at hannounced
    split_ifs at hannounced with hnumeral
    · rwa [hlength hnumeral hlt]
    · exact absurd hannounced (lt_irrefl 0)
  refine ⟨hlength, hzero, fun m hm hannounced hlt => ?_, fun r head hhead hannounced hlt => ?_, ?_⟩
  · have := hpos hannounced hlt
    rcases hm with rfl | rfl | rfl <;> simpa [canHaveHttpBody] using this
  · have := hpos hannounced hlt
    simpa [Client.RequestHandler.hasResponseBody, Client.RequestHandler.readResponseHeaders,
      hhead] using this
  · unfold announced
    split_ifs with hnumeral
    · rcases Nat.lt_or_ge (numeral header) (2 ^ 63) with hlt | hge
      · exact (hlength hnumeral hlt).le
      · rw [hlarge hge]
        exact Nat.zero_le _
    · rw [hzero (by simpa using hnumeral)]

theorem readAsAnnounced_iff (h : header.length < 511) :
    ReadAsAnnounced header ↔ Unambiguous header := by
  have hread := readContentLength_eq h
  unfold Unambiguous
  constructor
  · intro hannounced
    split_ifs with hnumeral
    · rw [leadingNumber_of_isNumeral hnumeral] at hread
      by_contra hno
      push Not at hno
      have heq := hannounced.numeral hnumeral hno.2
      rw [hread, if_neg (by omega)] at heq
      omega
    · have hzero := hannounced.other (by simpa using hnumeral)
      rw [hread] at hzero
      split_ifs at hzero with hint
      · exact .inl (by omega)
      · omega
  · intro hcond
    split_ifs at hcond with hnumeral
    · rw [leadingNumber_of_isNumeral hnumeral] at hread
      refine readAsAnnounced_of_length (fun _ hlt => ?_) (fun hno => ?_) fun hge => ?_
      · rw [hread, if_pos (by omega)]
        omega
      · exact absurd (hnumeral.symm.trans hno) (by decide)
      · rw [hread, if_neg (by omega)]
    · have hzero : Channel.readContentLength header = 0 := by
        rw [hread]
        split_ifs with hint
        · rw [show leadingNumber header = 0 by omega]
          rfl
        · rfl
      exact readAsAnnounced_of_length (fun hyes => absurd hyes hnumeral) (fun _ => hzero)
        fun _ => hzero

theorem readAsAnnounced_sample : ReadAsAnnounced (ascii "1048576") :=
  (readAsAnnounced_iff (by decide)).mpr (by decide +kernel)

/-- A body of 2^31 bytes is taken for none, and a negative length for an enormous one. -/
theorem longBody_unannounced :
    ¬ ReadAsAnnounced (ascii "2147483648") ∧ ¬ ReadAsAnnounced (ascii "-5") := by
  refine ⟨fun h => ?_, fun h => ?_⟩
  · exact absurd (h.numeral (by decide +kernel) (by decide +kernel)) (by decide +kernel)
  · exact absurd h.reserved (by decide +kernel)

end Main
end Rockets.Http
