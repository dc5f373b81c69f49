import Rockets.JsonRpcReceiver

set_option autoImplicit false

/-!
# Processing of JSON-RPC messages

Single requests are answered through the respond callback, at once or later. The entries
of a batch are processed one after the other, each waiting for its own promise.
-/
namespace Rockets.JsonRpc

def parseError : Response.Error :=
  { message := ascii "Parse error", code := ErrorCode.parseError.value }

def invalidParams : Response.Error :=
  { message := ascii "Invalid params", code := ErrorCode.invalidParams.value }

def invalidRequest : Response.Error :=
  { message := ascii "Invalid Request", code := ErrorCode.invalidRequest.value }

def methodNotFound : Response.Error :=
  { message := ascii "Method not found", code := ErrorCode.methodNotFound.value }

def isValidJsonRpcRequest (object : Json) : Except Exn Bool :=
  if !object.count (ascii "jsonrpc") then .ok false
  else do
    let version ← (object.at' (ascii "jsonrpc")).getString
    return version == ascii "2.0" &&
      object.count (ascii "method") && (object.at' (ascii "method")).isString &&
      (!object.count (ascii "params") || (object.at' (ascii "params")).isObject ||
        (object.at' (ascii "params")).isArray) &&
      (!object.count (ascii "id") || (object.at' (ascii "id")).isNumber ||
        (object.at' (ascii "id")).isString)

def dump (object : Json) : Except Exn Text :=
  if object.isNull then .ok (.bytes []) else object.dump

def requestID (request : Json) : Json :=
  if request.count (ascii "id") then request.at' (ascii "id") else .null

def requestParams (request : Json) : Except Exn Text :=
  match request.find? (ascii "params") with
  | none => .ok (.bytes [])
  | some params => dump params

/-- `promise::set_value`. -/
def setValue : JsonResponseCallback (Option Json) := fun response promise =>
  match promise with
  | none => .ok (some response)
  | some _ => .error .futureError

/-- The respond callback of a single request: the texts are those given to the callback
of `process`. -/
def stringifyCallback : JsonResponseCallback (List Text) := fun obj texts => do
  return texts ++ [← dump obj]

section Effects
variable {α τ β : Type}

/-- Give a computation a fresh promise. -/
def withPromise (x : Effect α (Option Json) β) : Effect α τ β := fun w =>
  match x { w with out := none } with
  | .ok b v => .ok b { v with out := w.out }
  | .error e v => .error e { v with out := w.out }

/-- The application gives the answer it owes; an exception ends in the application. -/
def settle : Option (Effect α τ Unit) → Effect α τ Unit
  | none => pure ()
  | some completion => tryCatch completion fun _ => pure ()

/-- `future::get`, while the application gives the answer it owes. -/
def await (later : Option (Effect α (Option Json) Unit)) : Effect α (Option Json) Json := do
  settle later
  match (← get).out with
  | some response => return response
  | none => throw .blocked

end Effects

namespace RequestProcessor
variable {α τ : Type} (lib : JsonLib) (recv : Receiver α)

/-- The answer to a request that is turned down: none to a notification. -/
def refuse (error : Response.Error) (id : Json) (respond : JsonResponseCallback τ) :
    Effect α τ (Option (Effect α τ Unit)) := do
  if id.isNull then send respond .null
  else send respond (← ofExcept (makeErrorResponse lib error id))
  return none

def processCommand (request : Json) (clientID : ℕ) (respond : JsonResponseCallback τ) :
    Effect α τ (Option (Effect α τ Unit)) := do
  let id := requestID request
  if !(← ofExcept (isValidJsonRpcRequest request)) then
    return ← refuse lib invalidRequest id respond
  let methodName ← ofExcept (request.at' (ascii "method")).getString
  if !recv.isRegisteredMethodName methodName then
    return ← refuse lib methodNotFound id respond
  let params ← ofExcept (requestParams request)
  recv.process lib id methodName { message := params, clientID } respond

def processCommandBlocking (request : Json) (clientID : ℕ) : Effect α τ Json :=
  withPromise do await (← processCommand lib recv request clientID setValue)

/-- The loop over the entries; an empty list of responses is a null value. -/
def processValidBatchBlocking (clientID : ℕ) : List Json → List Json → Effect α τ Json
  | [], responses => return if responses.isEmpty then .null else .array responses
  | entry :: array, responses => do
    if entry.isObject then
      let response ← processCommandBlocking lib recv entry clientID
      processValidBatchBlocking clientID array
        (if response.isNull then responses else responses ++ [response])
    else
      let response ← ofExcept (makeErrorResponse lib invalidRequest .null)
      processValidBatchBlocking clientID array (responses ++ [response])

def processBatchBlocking (array : List Json) (clientID : ℕ) : Effect α τ Text := do
  if array.isEmpty then return .bytes []
  ofExcept (dump (← processValidBatchBlocking lib recv clientID array []))

def callback (text : Text) : Effect α (List Text) Unit :=
  modify fun w => { w with out := w.out ++ [text] }

/-- The block of `process` that is tried. -/
def processDocument (request : Request) :
    Effect α (List Text) (Option (Effect α (List Text) Unit)) := do
  match ← ofExcept (lib.parseOrThrow request.message) with
  | .object members =>
    processCommand lib recv (.object members) request.clientID stringifyCallback
  | .array elements =>
    callback (← processBatchBlocking lib recv elements request.clientID)
    return none
  | _ =>
    callback (← ofExcept (do dump (← makeErrorResponse lib invalidParams .null)))
    return none

def process (request : Request) :
    Effect α (List Text) (Option (Effect α (List Text) Unit)) :=
  tryCatch (processDocument lib recv request) fun
    | .threw (.parseError what) => do
      callback (← ofExcept (dump (makeErrorResponseData parseError .null (.string what))))
      return none
    | e => throw e

end RequestProcessor
end Rockets.JsonRpc
