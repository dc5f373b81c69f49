import Rockets.JsonRpcRoundTrip

set_option autoImplicit false

/-!
# Responses that reach a requester

What `processResponse` makes of any text at all, and what the callback of a request is told
of an error.
-/
namespace Rockets.JsonRpc.Requester
variable {lib : JsonLib} {s : State} {text : Text} {object : Json}

/-- Steps that leave at least `depth` calls in progress. -/
def Inside (lib : JsonLib) (depth : ℕ) (s : State) (e : Event) : Prop :=
  depth ≤ (s.next lib e).stack.length

/-- They accept no response for the id, whose entry a call in progress is yet to erase. -/
def Spares (lib : JsonLib) (id : ℕ) (s : State) : Event → Prop
  | .processResponse text => ∀ a, s.impl.accept lib text = .ok (some a) → a.id ≠ id
  | _ => True

/-- How a call of `processResponse` ends, if callbacks return: in which state, with what
value or exception. The callback may itself call the requester. -/
inductive Processed (lib : JsonLib) (s : State) (text : Text) : Except Exn Bool → State → Prop where
  | threw {e : Exn} (exit : s.impl.accept lib text = .error e) : Processed lib s text (.error e) s
  | rejected (exit : s.impl.accept lib text = .ok none) : Processed lib s text (.ok false) s
  | answered {a : Accepted} {es : List Event} {u : State}
      (found : s.impl.accept lib text = .ok (some a))
      (callback : (machine lib).Path (Inside lib (s.stack.length + 1)) (s.respond text a) es u)
      (returns : u.stack.length = s.stack.length + 1) : Processed lib s text (.ok true) u.ret

structure IsErrorObject (error : Json) : Prop where
  code : ∃ code, error.find? (ascii "code") = some code ∧ code.isNumberInteger = true
  message : ∃ message, error.find? (ascii "message") = some (.string message)

structure IsResponseObject (object : Json) : Prop where
  version : object.find? (ascii "jsonrpc") = some (.string (ascii "2.0"))
  content : (object.find? (ascii "result")).isSome = true ∧ object.find? (ascii "error") = none ∨
    object.find? (ascii "result") = none ∧
      ∃ error, object.find? (ascii "error") = some error ∧ IsErrorObject error

def State.IsResponseTo (lib : JsonLib) (s : State) (text : Text) (id call : ℕ) : Prop :=
  ∃ object, lib.parseOrDiscard text = some object ∧ IsResponseObject object ∧
    object.find? (ascii "id") = some (.numberUnsigned id) ∧ s.pending id = some call

section Validation

theorem isValidError_iff {error : Json} : isValidError error = true ↔ IsErrorObject error := by
  constructor
  · intro h
    simp only [isValidError, Json.count, Json.at', Bool.and_eq_true] at h
    obtain ⟨⟨⟨⟨-, hcode⟩, hinteger⟩, hmessage⟩, hstring⟩ := h
    obtain ⟨code, hcode⟩ := Option.isSome_iff_exists.mp hcode
    obtain ⟨message, hmessage⟩ := Option.isSome_iff_exists.mp hmessage
    rw [hcode] at hinteger
    rw [hmessage] at hstring
    refine ⟨⟨code, hcode, hinteger⟩, ?_⟩
    cases message with
    | string message => exact ⟨message, hmessage⟩
    | _ => cases hstring
  · rintro ⟨⟨code, hcode, hinteger⟩, message, hmessage⟩
    have hobject : error.isObject = true := by
      cases error with
      | object members => rfl
      | _ => cases hcode
    simp only [isValidError, Json.count, Json.at', hobject, hcode, hmessage, hinteger,
      Option.isSome_some, Option.getD_some, Json.isString, Bool.and_self]

theorem isValidJsonRpcResponse_error (h : hasReadableVersion object = false) :
    isValidJsonRpcResponse object = .error .typeError := by
  unfold hasReadableVersion at h
  unfold isValidJsonRpcResponse Json.count Json.at'
  cases hv : object.find? (ascii "jsonrpc") with
  | none =>
    rw [hv] at h
    cases h
  | some version =>
    rw [hv] at h
    cases version with
    | string s => cases h
    | _ => rfl

theorem content_iff : ((object.count (ascii "result") && !object.count (ascii "error")) ||
      (object.count (ascii "error") && !object.count (ascii "result") &&
        isValidError (object.at' (ascii "error")))) = true ↔
    ((object.find? (ascii "result")).isSome = true ∧ object.find? (ascii "error") = none ∨
      object.find? (ascii "result") = none ∧
        ∃ error, object.find? (ascii "error") = some error ∧ IsErrorObject error) := by
  unfold Json.count Json.at'
  cases object.find? (ascii "result") with
  | none =>
    cases object.find? (ascii "error") with
    | none => simp
    | some error => simp [isValidError_iff]
  | some result => cases object.find? (ascii "error") <;> simp

theorem isValidJsonRpcResponse_ok (h : hasReadableVersion object = true) :
    ∃ b, isValidJsonRpcResponse object = .ok b ∧
      (b = true ↔ IsResponseObject object ∧ ∃ id, object.find? (ascii "id") = some id ∧
        isValidId id = true) := by
  unfold hasReadableVersion at h
  cases hv : object.find? (ascii "jsonrpc") with
  | none =>
    have hno : object.count (ascii "jsonrpc") = false := by rw [Json.count, hv]; rfl
    refine ⟨false, by simp only [isValidJsonRpcResponse, hno]; rfl, by simp, ?_⟩
    rintro ⟨⟨hversion, -⟩, -⟩
    cases hv.symm.trans hversion
  | some version =>
    rw [hv] at h
    cases version with
    | string v =>
      have hcount : object.count (ascii "jsonrpc") = true := by rw [Json.count, hv]; rfl
      have hat : object.at' (ascii "jsonrpc") = .string v := by rw [Json.at', hv]; rfl
      refine ⟨_, by simp only [isValidJsonRpcResponse, hcount, hat, Json.getString, if_true]; rfl, ?_⟩
      have hid : (object.count (ascii "id") && isValidId (object.at' (ascii "id"))) = true ↔
          ∃ id, object.find? (ascii "id") = some id ∧ isValidId id = true := by
        unfold Json.count Json.at'
        cases object.find? (ascii "id") <;> simp
      rw [Bool.and_assoc, Bool.and_eq_true, hid, Bool.and_eq_true, content_iff, beq_iff_eq]
      constructor
      · rintro ⟨⟨rfl, hcontent⟩, hid⟩
        exact ⟨⟨hv, hcontent⟩, hid⟩
      · rintro ⟨⟨hversion, hcontent⟩, hid⟩
        exact ⟨⟨Json.string.inj (Option.some.inj (hv.symm.trans hversion)), hcontent⟩, hid⟩
    | _ => cases h

end Validation

section Decoding

def integer? : Json → Option ℤ
  | .numberInteger n => some n
  | .numberUnsigned n => some n
  | _ => none

/-- The data of an error object, or nothing if it has none. -/
def IsData (error : Json) (data : Text) : Prop :=
  match error.find? (ascii "data") with
  | none => data = .bytes []
  | some d => ∃ h, data = .dumped d h

theorem integer?_isSome {code : Json} (h : code.isNumberInteger = true) :
    ∃ n, integer? code = some n := by
  cases code with
  | numberInteger n => exact ⟨n, rfl⟩
  | numberUnsigned n => exact ⟨n, rfl⟩
  | _ => cases h

theorem getInt_of_integer {code : Json} {n : ℤ} (h : integer? code = some n) :
    getInt code = .ok (n.bmod (2 ^ 32)) := by
  cases code with
  | numberInteger m =>
    obtain rfl := Option.some.inj h
    rfl
  | numberUnsigned m =>
    obtain rfl := Option.some.inj h
    rfl
  | _ => cases h

theorem utf8_of_parse (h : lib.parseOrDiscard text = some object) : object.utf8 = true := by
  unfold JsonLib.parseOrDiscard at h
  split at h
  · rename_i j hu _
    obtain rfl := Option.some.inj h
    exact hu
  · cases h

theorem makeResponse_error {error code : Json} {message : Bytes} {n : ℤ}
    (herror : object.find? (ascii "error") = some error)
    (hcode : error.find? (ascii "code") = some code) (hn : integer? code = some n)
    (hmessage : error.find? (ascii "message") = some (.string message))
    (hu : object.utf8 = true) : ∃ data, IsData error data ∧ makeResponse object =
      .ok { error := { message := message, code := n.bmod (2 ^ 32), data := data } } := by
  unfold IsData makeResponse
  simp only [Json.count, Json.at', herror, hcode, hmessage, Option.isSome_some, Option.getD_some,
    Json.getString, getInt_of_integer hn, if_true]
  cases hdata : error.find? (ascii "data") with
  | none => exact ⟨.bytes [], rfl, rfl⟩
  | some d =>
    have hd : d.utf8 = true := Json.utf8_of_find? (Json.utf8_of_find? hu herror) hdata
    refine ⟨.dumped d hd, ⟨hd, rfl⟩, ?_⟩
    simp only [Option.isSome_some, Option.getD_some, Json.dump_ok hd, if_true]
    rfl

end Decoding

section Acceptance

theorem State.IsResponseTo.unique {id id' call call' : ℕ} (h : s.IsResponseTo lib text id call)
    (h' : s.IsResponseTo lib text id' call') : id' = id ∧ call' = call := by
  obtain ⟨object, hparse, -, hid, hpending⟩ := h
  obtain ⟨object', hparse', -, hid', hpending'⟩ := h'
  obtain rfl := Option.some.inj (hparse.symm.trans hparse')
  obtain rfl := Json.numberUnsigned.inj (Option.some.inj (hid.symm.trans hid'))
  exact ⟨rfl, Option.some.inj (hpending'.symm.trans hpending)⟩

end Acceptance

section Callbacks

end Callbacks

section Main

/-- A call of `processResponse` as it should go: it returns; false means that nothing has
happened; true means that the text was a response to a pending request, whose callback was
invoked and whose entry, and no other, is gone when the callback has returned. A callback that
receives a second response for its request is left out. -/
structure Handled (lib : JsonLib) (s : State) (text : Text) : Prop where
  returns : ∀ r u, Processed lib s text r u → ∃ b, r = .ok b
  ignored : ∀ u, Processed lib s text (.ok false) u → u = s
  accepted : (∃ u, Processed lib s text (.ok true) u) ↔ ∃ id call, s.IsResponseTo lib text id call
  answered : ∀ id call, s.IsResponseTo lib text id call →
    ∃ response, s.processResponse lib text = s.respond text { id, call, response } ∧
      ∀ es u, (machine lib).Path
          (fun v e => Inside lib (s.stack.length + 1) v e ∧ Spares lib id v e)
          (s.processResponse lib text) es u → u.stack.length = s.stack.length + 1 →
        (∀ j, u.ret.pending j = if j = id then none else u.pending j) ∧
          u.ret.impl.lastId = u.impl.lastId ∧ u.ret.invocations = u.invocations ∧
          u.ret.isUndefined = u.isUndefined

def numericVersion : Json := .object [(ascii "jsonrpc", .numberUnsigned 2)]

end Main

section Errors

def jsonConversionFailed : Response.Error :=
  { message := ascii "Response JSON conversion failed"
    code := ErrorCode.invalidJsonResponse.value }

def typedCallback {ρ : Type} (fromJson : Text → Option ρ) (response : Response) :
    Except Response.Error ρ :=
  if response.isError then .error response.error
  else match fromJson response.result with
    | none => .error jsonConversionFailed
    | some value => .ok value

def codeOf (error : Json) : ℤ := (integer? (error.at' (ascii "code"))).getD 0

/-- The callback of a call is given the error object as an error. -/
def State.Reports (lib : JsonLib) (s : State) (text : Text) (call : ℕ) (error : Json) : Prop :=
  ∃ rep, (s.processResponse lib text).invocations = s.invocations ++ [⟨call, rep, .answered text⟩] ∧
    rep.isError = true ∧ rep.error.code = codeOf error ∧
    error.find? (ascii "message") = some (.string rep.error.message) ∧
    IsData error rep.error.data ∧
    ∀ (ρ : Type) (fromJson : Text → Option ρ), typedCallback fromJson rep = .error rep.error

variable {error : Json} {id call : ℕ}

theorem invocations_of_error (hparse : lib.parseOrDiscard text = some object)
    (hvalid : isValidJsonRpcResponse object = .ok true)
    (herror : object.find? (ascii "error") = some error)
    (hid : object.find? (ascii "id") = some (.numberUnsigned id))
    (hpending : s.pending id = some call) : ∃ message data,
      error.find? (ascii "message") = some (.string message) ∧ IsData error data ∧
      (s.processResponse lib text).invocations = s.invocations ++
        [⟨call, { error := { message, code := (codeOf error).bmod (2 ^ 32), data } },
          .answered text⟩] := by
  have hreadable : hasReadableVersion object = true := by
    by_contra hno
    rw [isValidJsonRpcResponse_error (Bool.not_eq_true _ ▸ hno)] at hvalid
    cases hvalid
  obtain ⟨b, hb, hresponse⟩ := isValidJsonRpcResponse_ok hreadable
  obtain rfl : true = b := Except.ok.inj (hvalid.symm.trans hb)
  have hobject : IsErrorObject error := by
    rcases (hresponse.mp rfl).1.content with ⟨-, hnone⟩ | ⟨-, error', herror', hobject⟩
    · cases hnone.symm.trans herror
    · obtain rfl := Option.some.inj (herror.symm.trans herror')
      exact hobject
  obtain ⟨⟨code, hcode, hinteger⟩, message, hmessage⟩ := hobject
  obtain ⟨n, hn⟩ := integer?_isSome hinteger
  have hcodeOf : codeOf error = n := by simp only [codeOf, Json.at', hcode, Option.getD_some, hn]
  obtain ⟨data, hdata, hmake⟩ := makeResponse_error herror hcode hn hmessage (utf8_of_parse hparse)
  refine ⟨message, data, hmessage, hdata, ?_⟩
  have hat : object.at' (ascii "id") = .numberUnsigned id := by rw [Json.at', hid]; rfl
  have haccept : s.impl.accept lib text = .ok (some { id, call, response :=
      { error := { message, code := n.bmod (2 ^ 32), data } } }) := by
    have hfind : s.impl.pendingRequests.find? id = some call := hpending
    simp only [Impl.accept, hparse, hvalid, hat, hfind, hmake, bind, Except.bind, pure, Except.pure,
      if_true]
  rw [State.processResponse, haccept, hcodeOf]
  rfl

theorem bmod_eq_self_iff (n : ℤ) : n.bmod (2 ^ 32) = n ↔ IsInt n := by
  constructor
  · intro h
    have hlow := @Int.le_bmod n (2 ^ 32) (by decide)
    have hhigh := @Int.bmod_lt n (2 ^ 32) (by decide)
    rw [h] at hlow hhigh
    constructor <;> omega
  · rintro ⟨hlow, hhigh⟩
    exact Int.bmod_eq_of_le (by omega) (by omega)

/-- An error is reported as the error it is if and only if its code is an `int` other
than 0. -/
theorem error_reported_iff (hparse : lib.parseOrDiscard text = some object)
    (hvalid : isValidJsonRpcResponse object = .ok true)
    (herror : object.find? (ascii "error") = some error)
    (hid : object.find? (ascii "id") = some (.numberUnsigned id))
    (hpending : s.pending id = some call) :
    s.Reports lib text call error ↔ codeOf error ≠ 0 ∧ IsInt (codeOf error) := by
  obtain ⟨message, data, hmessage, hdata, hinvocations⟩ :=
    invocations_of_error hparse hvalid herror hid hpending
  constructor
  · rintro ⟨rep, hrep, hisError, hcode, -⟩
    rw [hinvocations] at hrep
    have heq := List.cons.inj (List.append_cancel_left hrep)
    obtain rfl := (Invocation.mk.inj heq.1).2.1
    replace hcode : (codeOf error).bmod (2 ^ 32) = codeOf error := hcode
    refine ⟨fun hzero => ?_, (bmod_eq_self_iff _).mp hcode⟩
    simp [Response.isError, hzero] at hisError
  · rintro ⟨hne, hint⟩
    have hcode := (bmod_eq_self_iff _).mpr hint
    have hisError : Response.isError
        { error := { message, code := (codeOf error).bmod (2 ^ 32), data } } = true := by
      rw [hcode]
      simpa [Response.isError] using hne
    exact ⟨_, hinvocations, hisError, hcode, hmessage, hdata, fun ρ fromJson => if_pos hisError⟩

def errorObject (code : ℕ) : Json := .object
  [(ascii "code", .numberUnsigned code), (ascii "message", .string (ascii "Overloaded"))]

def errorResponse (code : ℕ) : Json := .object [(ascii "error", errorObject code),
  (ascii "id", .numberUnsigned 0), (ascii "jsonrpc", .string (ascii "2.0"))]

theorem errorResponse_utf8 (code : ℕ) : (errorResponse code).utf8 = true := by
  simp (disch := decide) only [errorResponse, errorObject, Json.utf8, Json.utf8Members,
    utf8_ascii, Bool.and_true]

def onePending : State := ({} : State).emplace 0

theorem parse_errorResponse (code : ℕ) : (JsonLib.ofTable []).parseOrDiscard
    (.dumped _ (errorResponse_utf8 code)) = some (errorResponse code) := rfl

theorem find?_errorResponse (code : ℕ) :
    (errorResponse code).find? (ascii "error") = some (errorObject code) ∧
      (errorResponse code).find? (ascii "id") = some (.numberUnsigned 0) := ⟨rfl, rfl⟩

theorem onePending_pending : onePending.pending 0 = some 0 := rfl

theorem errorResponse_reported : onePending.Reports (.ofTable [])
    (.dumped _ (errorResponse_utf8 5)) 0 (errorObject 5) :=
  (error_reported_iff (parse_errorResponse 5) rfl (find?_errorResponse 5).1
    (find?_errorResponse 5).2 onePending_pending).mpr ⟨by decide +kernel, by decide +kernel⟩

/-- The code 2^32 is taken for a success. -/
theorem wideCode_unreported : ¬ onePending.Reports (.ofTable [])
    (.dumped _ (errorResponse_utf8 (2 ^ 32))) 0 (errorObject (2 ^ 32)) := by
  rintro ⟨rep, hrep, hisError, -⟩
  obtain ⟨message, data, -, -, hinvocations⟩ := invocations_of_error
    (parse_errorResponse (2 ^ 32)) rfl (find?_errorResponse (2 ^ 32)).1
    (find?_errorResponse (2 ^ 32)).2 onePending_pending
  have hzero : (codeOf (errorObject (2 ^ 32))).bmod (2 ^ 32) = 0 := by decide +kernel
  rw [hinvocations, hzero] at hrep
  have heq := List.cons.inj (List.append_cancel_left hrep)
  obtain rfl := (Invocation.mk.inj heq.1).2.1
  simp [Response.isError] at hisError

end Errors
end Rockets.JsonRpc.Requester
