import Rockets.Bytes
import Rockets.OrderedMap

set_option autoImplicit false

namespace Rockets.Ws

inductive Format where
  | text
  | binary
  | unspecified
  deriving DecidableEq, Repr

inductive Recipient where
  | sender
  | others
  | all
  deriving DecidableEq, Repr

/-- `clientID` is the address of the connection object. -/
structure Request where
  message : Bytes
  clientID : ℕ
  deriving DecidableEq, Repr

structure Response where
  message : Bytes := []
  recipient : Recipient := .sender
  format : Format := .unspecified
  deriving DecidableEq, Repr

section Callbacks
variable (α : Type)

/-! Application callbacks may read and change the application's state `α`. -/

abbrev MessageCallback := Request → α → Response × α

/-- The list holds the replies sent through the response callback before returning;
later ones are events of their own. -/
abbrev MessageCallbackAsync := Request → α → List Bytes × α

abbrev ConnectionCallback := ℕ → α → List Response × α

end Callbacks
end Rockets.Ws
