import Rockets.JsonRpcMalformedMessages
import Rockets.JsonTexts

set_option autoImplicit false

/-!
# Messages that begin with a byte no text begins with

The parser's message quotes such a byte as it is, so that the reply with the message cannot be
written.
-/
namespace Rockets

namespace Parsing
open Lexing Grammar
variable {strtod : Strtod} {ws rest : Bytes} {b : Fin 256}

theorem get_tokenString {l : Lexer} : l.get.tokenString = l.tokenString ++ l.get.current.toList :=
  rfl

/-- The white space before a token is part of the token string. -/
theorem skipBlanks_tokenString {l : Lexer} {buf r : Bytes} (hws : IsBlank ws)
    (hr : isBlankChar r.head? = false) (hl : At l (ws ++ r) buf) :
    (skipBlanksLoop.run l).tokenString = l.tokenString ++ ws ++ r.head?.toList := by
  induction ws generalizing l with
  | nil =>
    have hget : l.get.current = r.head? := by
      cases r with
      | nil => exact hl.nil.1
      | cons c r => exact hl.cons.1
    have hturn : skipBlanksTurn l = .inl l.get := by
      rw [skipBlanksTurn, hget, if_neg (by simp [hr])]
    rw [Loop.run_inl (L := skipBlanksLoop) hturn, get_tokenString, hget, List.append_nil]
  | cons c ws ih =>
    obtain ⟨hc, hws⟩ := List.forall_mem_cons.mp hws
    obtain ⟨hcur, hget⟩ := hl.cons
    have hturn : skipBlanksTurn l = .inr l.get := by
      rw [skipBlanksTurn, hcur, if_pos (isBlankChar_iff.mpr hc)]
    rw [Loop.run_inr (L := skipBlanksLoop) hturn, ih hws hget, get_tokenString, hcur]
    simp

/-- No token begins with a byte above the ASCII characters. -/
theorem foreign_byte (hb : 0x80 ≤ b.val) : isBlankChar (some b) = false ∧ structural b = none ∧
    literal b = none ∧ b ≠ 0x22 ∧ ¬(b = 0x2D ∨ Http.isDigit b = true) ∧ b ≠ 0 := by
  revert b
  decide +kernel

theorem scanNext_foreign (strtod : Strtod) {l : Lexer} {buf : Bytes} (hws : IsBlank ws) (hb : 0x80 ≤ b.val)
    (hl : At l (ws ++ b :: rest) buf) : ∃ l', scanNext strtod l =
      (.parseError (ascii "invalid literal"), l') ∧ l'.tokenString = l.tokenString ++ ws ++ [b] := by
  obtain ⟨hblank, hstructural, hliteral, hquote, hnumber, hnull⟩ := foreign_byte hb
  refine ⟨skipBlanksLoop.run l, ?_, skipBlanks_tokenString (r := b :: rest) hws hblank hl⟩
  obtain ⟨hcur, -⟩ := skipBlanks_complete (r := b :: rest) hws hblank hl
  rw [scanNext, scanToken, hcur]
  simp only [List.head?_cons, hstructural, hliteral]
  rw [if_neg hquote, if_neg hnumber, if_neg hnull]

theorem scan_foreign (strtod : Strtod) (rest : Bytes) (hws : IsBlank ws) (hb : 0x80 ≤ b.val) (hbom : ws = [] → b ≠ 0xEF) :
    ∃ l', scan strtod (.ofInput (ws ++ b :: rest)) =
      (.parseError (ascii "invalid literal"), l') ∧ l'.tokenString = ws ++ [b] := by
  have hl := At.ofInput (ws ++ b :: rest)
  have hfirst : (Lexer.ofInput (ws ++ b :: rest)).get.current ≠ some 0xEF := by
    cases ws with
    | nil => exact fun h => hbom rfl (Option.some.inj h)
    | cons c ws =>
      have hc := hws c List.mem_cons_self
      intro h
      obtain rfl : c = 0xEF := Option.some.inj h
      simp [IsSpace] at hc
  have hbom : skipBom (.ofInput (ws ++ b :: rest)) =
      (true, (Lexer.ofInput (ws ++ b :: rest)).get.unget) := by
    rw [skipBom, if_neg hfirst]
  obtain ⟨l', hscan, htoken⟩ := scanNext_foreign strtod hws hb hl.unget
  refine ⟨l', (scan_of_bom rfl hbom).trans hscan, ?_⟩
  rw [htoken]
  cases ws <;> rfl

theorem decimal_utf8 (n : ℕ) : utf8 (decimal n) = true :=
  utf8_of_ascii (ascii_of_digits (Serializer.decimal_all n))

theorem escapeControl_blank {c : Fin 256} (h : IsSpace c) : utf8 (escapeControl c) = true := by
  rcases h with rfl | rfl | rfl | rfl <;> rfl

theorem utf8_flatMap (hws : IsBlank ws) : utf8 (ws.flatMap escapeControl) = true := by
  induction ws with
  | nil => rfl
  | cons c ws ih =>
    obtain ⟨hc, hws⟩ := List.forall_mem_cons.mp hws
    exact utf8_append_true (escapeControl_blank hc) (ih hws)

theorem utf8_quoted (hb : 0x80 ≤ b.val) : utf8 (escapeControl b ++ ascii "'") = false := by
  revert b
  decide +kernel

theorem syntaxError_foreign {p : Parser Dom} (hws : IsBlank ws) (hb : 0x80 ≤ b.val)
    (hlast : p.lastToken = .parseError (ascii "invalid literal"))
    (htoken : p.lexer.tokenString = ws ++ [b]) :
    ∃ what, p.syntaxError .uninitialized "value" = .parseError what ∧ utf8 what = false := by
  let head : Bytes := ascii "[json.exception.parse_error.101] parse error" ++
    positionString p.lexer.position ++ ascii ": "
  let expected : Bytes := ascii "syntax error while parsing value - invalid literal; last read: '"
  refine ⟨head ++ (expected ++ (ws.flatMap escapeControl ++ (escapeControl b ++ ascii "'"))), ?_, ?_⟩
  · have hfound : found p.lexer p.lastToken =
        ascii "invalid literal; last read: '" ++ ws.flatMap escapeControl ++ escapeControl b ++
          ascii "'" := by
      rw [hlast, found, getTokenString, htoken, List.flatMap_append, List.flatMap_singleton]
      simp only [List.append_assoc]
      rfl
    have hexpected : expected = ascii "syntax error while parsing " ++ ascii "value" ++
        ascii " - " ++ ascii "invalid literal; last read: '" := rfl
    rw [Parser.syntaxError, exceptionMessage, hfound, hexpected]
    simp only [head, expectation, if_true, List.append_nil, List.append_assoc]
  · have hposition : utf8 (positionString p.lexer.position) = true :=
      utf8_append_true (utf8_append_true (utf8_append_true (utf8_ascii (by decide))
        (decimal_utf8 _)) (utf8_ascii (by decide))) (decimal_utf8 _)
    have hhead : utf8 head = true :=
      utf8_append_true (utf8_append_true (utf8_ascii (by decide)) hposition)
        (utf8_ascii (by decide))
    have hliteral : utf8 expected = true := utf8_ascii (by decide)
    rw [utf8_append_of hhead, utf8_append_of hliteral, utf8_append_of (utf8_flatMap hws)]
    exact utf8_quoted hb

theorem parse_foreign (strtod : Strtod) (rest : Bytes) (hws : IsBlank ws) (hb : 0x80 ≤ b.val) (hbom : ws = [] → b ≠ 0xEF) :
    ∃ what, Json.parse strtod (ws ++ b :: rest) = .error (.parseError what) ∧
      utf8 what = false := by
  obtain ⟨l', hscan, htoken⟩ := scan_foreign strtod rest hws hb hbom
  let p : Parser Dom := ⟨l', .parseError (ascii "invalid literal"), [], false, .ofRoot .null⟩
  have hp : Parser.ofInput strtod (ws ++ b :: rest) (Dom.ofRoot .null) = p := by
    rw [Parser.ofInput, Parser.getToken, hscan]
  have hturn : (Parser.loop strtod Dom.on).turn p =
      .inl (.error (p.syntaxError .uninitialized "value")) := rfl
  obtain ⟨what, herror, hwhat⟩ := syntaxError_foreign (p := p) hws hb rfl htoken
  refine ⟨what, ?_, hwhat⟩
  rw [Json.parse, Parser.saxParse, Parser.saxParseInternal, hp,
    Loop.run_inl hturn, herror]

end Parsing

namespace JsonRpc
open Parsing Grammar
variable {α : Type} {strtod : Strtod} {sameKey : Json → Json → Bool} {refl : ∀ j, sameKey j j = true}
  {recv : Receiver α} {request : Request} {ws rest : Bytes} {b : Fin 256}

/-- Whatever is bound and pending, the exception leaves `process` before anything has been
answered or changed. -/
theorem process_foreign_byte (hmessage : request.message = .bytes (ws ++ b :: rest))
    (hws : IsBlank ws) (hb : 0x80 ≤ b.val) (hbom : ws = [] → b ≠ 0xEF)
    (w : World α (List Text)) :
    (RequestProcessor.process (JsonLib.embedded strtod sameKey refl) recv request).run w =
      .error (.threw .typeError) w := by
  obtain ⟨what, hparse, hwhat⟩ := parse_foreign strtod rest hws hb hbom
  have hp : (JsonLib.embedded strtod sameKey refl).parse request.message = .parseError what := by
    rw [hmessage]
    exact parsed_parseError hparse
  have hrun : (RequestProcessor.processDocument (JsonLib.embedded strtod sameKey refl) recv
      request).run w = .error (.threw (.parseError what)) w := by
    simp only [RequestProcessor.processDocument, JsonLib.parseOrThrow, hp]
    rfl
  rcases process_of_parseError hrun with ⟨hutf8, -⟩ | ⟨-, hthrown⟩
  · exact absurd hutf8 (by simp [hwhat])
  · exact hthrown

/-- A blank and an é of Latin-1. -/
theorem process_latin :
    (RequestProcessor.process (JsonLib.embedded (fun _ => 0) (fun _ _ => true) fun _ => rfl)
      (pingReceiver okResponse) { message := .bytes [0x20, 0xE9], clientID := 1 }).run
        { app := (), requests := [], aborted := [], out := [] } =
      .error (.threw .typeError) { app := (), requests := [], aborted := [], out := [] } :=
  process_foreign_byte (show Text.bytes [0x20, 0xE9] = .bytes ([0x20] ++ 0xE9 :: []) from rfl)
    (by simp [IsBlank, IsSpace]) (by decide) (by simp) _

end JsonRpc
end Rockets
