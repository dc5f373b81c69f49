import Rockets.JsonRpcTypes

set_option autoImplicit false

/-!
# Building responses
-/
namespace Rockets.JsonRpc
variable (lib : JsonLib)

def jsonResponseParseError : Bytes := ascii "Server response is not a valid json string"

def internalError : Response.Error :=
  { message := ascii "Internal error", code := ErrorCode.internalError.value }

/-- The overload for an error object that is built already. -/
def makeErrorResponseJson (error id : Json) : Json :=
  .ofMembers [(ascii "jsonrpc", .string (ascii "2.0")), (ascii "error", error), (ascii "id", id)]

def makeErrorResponse (error : Response.Error) (id : Json) : Except Exn Json :=
  let members := [(ascii "code", Json.numberInteger error.code),
    (ascii "message", Json.string error.message)]
  if error.data.isEmpty then .ok (makeErrorResponseJson (.ofMembers members) id)
  else do
    let data ← lib.parseOrThrow error.data
    return makeErrorResponseJson (.ofMembers (members ++ [(ascii "data", data)])) id

/-- The overload for data that is a JSON value already. -/
def makeErrorResponseData (error : Response.Error) (id data : Json) : Json :=
  makeErrorResponseJson (.ofMembers [(ascii "code", .numberInteger error.code),
    (ascii "message", .string error.message), (ascii "data", data)]) id

def makeResponseJson (result id : Json) : Json :=
  .ofMembers [(ascii "jsonrpc", .string (ascii "2.0")), (ascii "result", result),
    (ascii "id", id)]

def makeResponseText (resultJson : Text) (id : Json) : Except Exn Json :=
  match lib.parseOrThrow resultJson with
  | .ok result => .ok (makeResponseJson result id)
  | .error (.parseError _) =>
    .ok (makeErrorResponseData internalError id (.string jsonResponseParseError))
  | .error e => .error e

def makeResponse (rep : Response) (id : Json) : Except Exn Json :=
  if rep.isError then makeErrorResponse lib rep.error id else makeResponseText lib rep.result id

theorem makeErrorResponseJson_eq (error id : Json) : makeErrorResponseJson error id =
    .object [(ascii "error", error), (ascii "id", id), (ascii "jsonrpc", .string (ascii "2.0"))] :=
  rfl

theorem makeResponseJson_eq (result id : Json) : makeResponseJson result id =
    .object [(ascii "id", id), (ascii "jsonrpc", .string (ascii "2.0")),
      (ascii "result", result)] :=
  rfl

section Utf8
variable {lib} {id : Json}

theorem utf8_makeErrorResponseJson {error : Json} (he : error.utf8 = true)
    (hid : id.utf8 = true) : (makeErrorResponseJson error id).utf8 = true := by
  rw [makeErrorResponseJson_eq]
  simp (disch := decide) only [Json.utf8, Json.utf8Members, he, hid, utf8_ascii, Bool.and_true]

theorem utf8_makeResponseJson {result : Json} (hr : result.utf8 = true)
    (hid : id.utf8 = true) : (makeResponseJson result id).utf8 = true := by
  rw [makeResponseJson_eq]
  simp (disch := decide) only [Json.utf8, Json.utf8Members, hr, hid, utf8_ascii, Bool.and_true]

theorem makeErrorResponseData_eq (error : Response.Error) (id data : Json) :
    makeErrorResponseData error id data = makeErrorResponseJson (.object
      [(ascii "code", .numberInteger error.code), (ascii "data", data),
        (ascii "message", .string error.message)]) id := rfl

theorem utf8_makeErrorResponseData {error : Response.Error} {data : Json}
    (hm : utf8 error.message = true) (hid : id.utf8 = true) :
    (makeErrorResponseData error id data).utf8 = data.utf8 := by
  rw [makeErrorResponseData_eq, makeErrorResponseJson_eq]
  simp (disch := decide) only [Json.utf8, Json.utf8Members, hm, hid, utf8_ascii, Bool.and_true,
    Bool.true_and]

theorem makeErrorResponse_of_isEmpty {error : Response.Error} (h : error.data.isEmpty = true)
    (id : Json) : makeErrorResponse lib error id = .ok (makeErrorResponseJson (.object
      [(ascii "code", .numberInteger error.code), (ascii "message", .string error.message)]) id) :=
  if_pos h

theorem makeErrorResponse_of_parse {error : Response.Error} (h : error.data.isEmpty = false)
    {data : Json} {hdata : data.utf8 = true} (hp : lib.parse error.data = .value data hdata)
    (id : Json) : makeErrorResponse lib error id = .ok (makeErrorResponseData error id data) := by
  unfold makeErrorResponse JsonLib.parseOrThrow
  rw [h, hp]
  rfl

/-- The strings of an error and its data, if any, can be encoded. -/
def Response.Error.Encodable (lib : JsonLib) (error : Response.Error) : Prop :=
  utf8 error.message = true ∧
    (error.data.isEmpty = true ∨ ∃ data h, lib.parse error.data = .value data h)

theorem makeErrorResponse_ok {error : Response.Error} (h : error.Encodable lib)
    (hid : id.utf8 = true) : ∃ j, makeErrorResponse lib error id = .ok j ∧ j.utf8 = true := by
  obtain ⟨hm, hdata⟩ := h
  cases he : error.data.isEmpty with
  | true =>
    refine ⟨_, makeErrorResponse_of_isEmpty he id, utf8_makeErrorResponseJson ?_ hid⟩
    simp (disch := decide) only [Json.utf8, Json.utf8Members, hm, utf8_ascii, Bool.and_true]
  | false =>
    obtain ⟨data, hu, hp⟩ := hdata.resolve_left (by simp [he])
    exact ⟨_, makeErrorResponse_of_parse he hp id, (utf8_makeErrorResponseData hm hid).trans hu⟩

/-- A response in which what has to be JSON is JSON. -/
def Response.Encoded (lib : JsonLib) (rep : Response) : Prop :=
  if rep.isError then rep.error.Encodable lib else ∃ result h, lib.parse rep.result = .value result h

theorem makeResponse_ok {rep : Response} (h : rep.Encoded lib) (hid : id.utf8 = true) :
    ∃ j, makeResponse lib rep id = .ok j ∧ j.utf8 = true := by
  unfold Response.Encoded at h
  unfold makeResponse
  split_ifs at h ⊢ with herror
  · exact makeErrorResponse_ok h hid
  · obtain ⟨result, hu, hp⟩ := h
    refine ⟨makeResponseJson result id, ?_, utf8_makeResponseJson hu hid⟩
    simp only [makeResponseText, JsonLib.parseOrThrow, hp]

end Utf8

def beginsWith (string other : Bytes) : Bool := string.take other.length == other

end Rockets.JsonRpc
