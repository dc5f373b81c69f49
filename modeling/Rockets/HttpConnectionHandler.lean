import Rockets.HttpRegistry

set_option autoImplicit false

/-!
# Choosing the response to an HTTP request
-/
namespace Rockets.Http

def slash : Fin 256 := 47

def Request.getPathWithoutLeadingSlash (request : Request) : Bytes :=
  match request.path with
  | b :: path => if b = slash then path else b :: path
  | [] => []

namespace ConnectionHandler
variable {φ : Type}

def removeEndpointFromPath (endpoint path : Bytes) : Bytes :=
  if endpoint = Registry.root then path
  else if endpoint.length ≥ path.length then []
  else path.drop endpoint.length

/-- What `_generateResponse` returns: a ready response, or the future that the handler
of an endpoint made for the request it was shown; `undefined` is undefined behaviour. -/
inductive Generated (φ : Type) where
  | ready (response : Response)
  | called (endpoint : Bytes) (request : Request) (future : φ)
  | undefined

def endsWithSlash (endpoint : Bytes) : Bool := endpoint.getLast? == some slash

/-- The endpoint that serves a path: the one found, if it may serve it. -/
def servingEndpoint (registry : Registry φ) (m : Method) (path : Bytes) :
    Option (Bytes × Bytes) :=
  match registry.findEndpoint m path with
  | none => none
  | some endpoint =>
    let pathStripped := removeEndpointFromPath endpoint path
    if pathStripped.isEmpty || endsWithSlash endpoint then some (endpoint, pathStripped)
    else none

def generateResponse (registry : Registry φ) (filter : Option Filter) (request : Request) :
    Except Exn (Generated φ) :=
  match filter.filter fun f => f.filter request with
  | some f => .ok (.ready (f.getResponse request))
  | none =>
    let path := request.getPathWithoutLeadingSlash
    if request.method = some .get ∧ path = ascii "registry" then do
      let body ← registry.toJson.dump
      return .ready ⟨Code.ok, body, [(.contentType, ascii "application/json")]⟩
    else
      match request.method with
      -- `findEndpoint` reads `_methods` past its end
      | none => .ok .undefined
      | some m =>
        match servingEndpoint registry m path with
        | some (endpoint, pathStripped) =>
          let request := { request with path := pathStripped }
          match registry.getFunction m endpoint with
          | some func => .ok (.called endpoint request (func request))
          | none => .error .outOfRange
        | none =>
          let allowedMethods := registry.getAllowedMethods path
          if allowedMethods.isEmpty then .ok (.ready { code := Code.notFound })
          else .ok (.ready
            { code := Code.notSupported, headers := [(.allow, allowedMethods)] })

end ConnectionHandler
end Rockets.Http
