import Rockets.Json

set_option autoImplicit false

/-!
# Requests, responses and actions of the JSON-RPC layer
-/
namespace Rockets.JsonRpc

inductive ErrorCode where
  | parseError
  | invalidRequest
  | methodNotFound
  | invalidParams
  | internalError
  | invalidJsonResponse
  | requestAborted
  | httpError
  deriving DecidableEq, Repr

def ErrorCode.value : ErrorCode → ℤ
  | parseError => -32700
  | invalidRequest => -32600
  | methodNotFound => -32601
  | invalidParams => -32602
  | internalError => -32603
  | invalidJsonResponse => -31001
  | requestAborted => -31002
  | httpError => -31003

namespace Response

structure Error where
  message : Bytes := []
  code : ℤ := 0
  data : Text := .bytes []

end Response

/-- Response to a well-formed request; `result` is JSON encoded. -/
structure Response where
  result : Text := .bytes []
  error : Response.Error := {}

namespace Response

def isError (rep : Response) : Bool := rep.error.code != 0

def invalidParams : Response :=
  { error := { message := ascii "Invalid params", code := ErrorCode.invalidParams.value } }

end Response

/-- A request as an action sees it: the text of the parameters and the client it is from. -/
structure Request where
  message : Text
  clientID : ℕ

/-- When an action invokes the response callback it was given: before it returns, or at
some later time. -/
inductive Answer where
  | now (rep : Response)
  | later (rep : Response)

def Answer.response : Answer → Response
  | now rep | later rep => rep

section Callbacks
variable (α : Type)

/-! Actions may read and change the application's state `α`. -/

abbrev ResponseCallback := Request → α → Response × α

abbrev DelayedResponseCallback := Request → α → Answer × α

/-- Tells whether the given callback is called before returning. -/
abbrev CancelRequestCallback := α → Bool × α

/-- The callback that is returned may be empty. -/
abbrev CancellableResponseCallback :=
  Request → α → (Answer × Option (CancelRequestCallback α)) × α

end Callbacks
end Rockets.JsonRpc
