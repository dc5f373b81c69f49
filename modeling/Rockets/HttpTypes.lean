import Rockets.Json

set_option autoImplicit false

namespace Rockets.Http

/-- The methods a registry has a slot for, of which `ALL` is the number. -/
inductive Method where
  | get
  | post
  | put
  | patch
  | delete
  | options
  deriving DecidableEq, Repr

namespace Method

def name : Method → Bytes
  | get => ascii "GET"
  | post => ascii "POST"
  | put => ascii "PUT"
  | patch => ascii "PATCH"
  | delete => ascii "DELETE"
  | options => ascii "OPTIONS"

def all : List Method := [get, post, put, patch, delete, options]

end Method

inductive Header where
  | allow
  | contentType
  | lastModified
  | location
  | retryAfter
  deriving DecidableEq, Repr

/-- Any other method, such as HEAD, is read as `ALL`, for which nothing stands. -/
structure Request where
  method : Option Method
  path : Bytes
  origin : Bytes := []
  host : Bytes := []
  query : List (Bytes × Bytes) := []
  body : Bytes := []
  deriving DecidableEq, Repr

structure Response where
  code : ℕ := 200
  body : Text := .bytes []
  headers : List (Header × Bytes) := []

def Code.ok : ℕ := 200
def Code.notFound : ℕ := 404
def Code.notSupported : ℕ := 405

/-- A handler; `φ` stands for the futures of a response. -/
abbrev RESTFunc (φ : Type) := Request → φ

structure Filter where
  filter : Request → Bool
  getResponse : Request → Response

end Rockets.Http
