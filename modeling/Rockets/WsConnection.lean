import Rockets.WsTypes

set_option autoImplicit false

namespace Rockets.Ws

/-- A websocket connection with the channel it owns: `writeRequested` is a pending
`lws_callback_on_writable`, `written` what was handed to `Channel::write` so far.
`serial` tells apart connection objects that successively live at one address. -/
structure Connection where
  address : ℕ
  serial : ℕ
  out : List (Bytes × Format) := []
  writeRequested : Bool := false
  written : List (Bytes × Format) := []
  deriving DecidableEq, Repr

namespace Connection

def enqueueText (c : Connection) (message : Bytes) : Connection :=
  { c with out := c.out ++ [(message, .text)] }

def enqueueBinary (c : Connection) (message : Bytes) : Connection :=
  { c with out := c.out ++ [(message, .binary)] }

def requestWrite (c : Connection) : Connection := { c with writeRequested := true }

def sendText (c : Connection) (message : Bytes) : Connection :=
  (c.enqueueText message).requestWrite

def sendBinary (c : Connection) (message : Bytes) : Connection :=
  (c.enqueueBinary message).requestWrite

def hasMessage (c : Connection) : Bool := !c.out.isEmpty

def writeOneMessage (c : Connection) : Connection :=
  match c.out with
  | [] => c
  | m :: out => { c with out := out, written := c.written ++ [m] }

/-- The loop of `writeMessages`; `accepts` is how often `canWrite` answers true
before it first answers false. -/
def writeLoop (c : Connection) : ℕ → Connection
  | 0 => c
  | accepts + 1 => if c.hasMessage then writeLoop c.writeOneMessage accepts else c

def writeMessages (c : Connection) (accepts : ℕ) : Connection :=
  let c := c.writeLoop accepts
  if c.hasMessage then c.requestWrite else c

@[simp] theorem address_sendText (c : Connection) (m : Bytes) :
    (c.sendText m).address = c.address := rfl

@[simp] theorem address_sendBinary (c : Connection) (m : Bytes) :
    (c.sendBinary m).address = c.address := rfl

@[simp] theorem address_enqueueText (c : Connection) (m : Bytes) :
    (c.enqueueText m).address = c.address := rfl

@[simp] theorem address_enqueueBinary (c : Connection) (m : Bytes) :
    (c.enqueueBinary m).address = c.address := rfl

theorem address_writeOneMessage (c : Connection) : c.writeOneMessage.address = c.address := by
  unfold writeOneMessage
  split <;> rfl

theorem address_writeLoop (c : Connection) (accepts : ℕ) :
    (c.writeLoop accepts).address = c.address := by
  induction accepts generalizing c with
  | zero => rfl
  | succ n ih =>
    rw [writeLoop]
    split_ifs
    · exact (ih _).trans c.address_writeOneMessage
    · rfl

@[simp] theorem address_writeMessages (c : Connection) (accepts : ℕ) :
    (c.writeMessages accepts).address = c.address := by
  unfold writeMessages
  dsimp only
  split_ifs <;> exact address_writeLoop c accepts

end Connection
end Rockets.Ws
