import Rockets.WsConnection

set_option autoImplicit false

/-!
# Runs of a websocket connection

A connection with the history of the calls it makes on its channel. The channel may refuse
messages at any time; what it has refused stays in the queue.
-/
namespace Rockets.Ws

inductive ChannelCall where
  | write (message : Bytes) (format : Format)
  | requestWrite
  deriving DecidableEq, Repr

namespace ChannelCall

def written? : ChannelCall → Option (Bytes × Format)
  | write message format => some (message, format)
  | requestWrite => none

end ChannelCall

/-- What has been handed to `Channel::write`, oldest first. -/
def written (calls : List ChannelCall) : List (Bytes × Format) :=
  calls.filterMap ChannelCall.written?

/-- A writable callback was requested after the last write. -/
def RequestedSinceWrite (calls : List ChannelCall) : Prop :=
  ∃ before after, calls = before ++ .requestWrite :: after ∧ written after = []

/-! ### The channel -/

inductive WriteProtocol where
  | text
  | binary
  deriving DecidableEq, Repr

namespace Channel

def LWS_PRE : ℕ := 16

def getProtocol (format : Format) : WriteProtocol :=
  if format = .text then .text else .binary

/-- The arguments of `lws_write`: the message is padded in front, and the data begin behind
the padding. -/
def write (message : Bytes) (format : Format) : Bytes × WriteProtocol :=
  let size := message.length
  let message := List.replicate LWS_PRE 48 ++ message
  ((message.drop LWS_PRE).take size, getProtocol format)

theorem write_eq (message : Bytes) (format : Format) :
    write message format = (message, getProtocol format) := by
  simp [write]

end Channel

/-! ### The connection -/

structure Traced where
  connection : Connection
  calls : List ChannelCall := []
  deriving DecidableEq, Repr

namespace Traced

def enqueueText (t : Traced) (message : Bytes) : Traced :=
  { t with connection := t.connection.enqueueText message }

def enqueueBinary (t : Traced) (message : Bytes) : Traced :=
  { t with connection := t.connection.enqueueBinary message }

def requestWrite (t : Traced) : Traced where
  connection := t.connection.requestWrite
  calls := t.calls ++ [.requestWrite]

def sendText (t : Traced) (message : Bytes) : Traced := (t.enqueueText message).requestWrite

def sendBinary (t : Traced) (message : Bytes) : Traced := (t.enqueueBinary message).requestWrite

/-- The message is moved out of the queue before its place there is removed. -/
def writeOneMessage (t : Traced) : Traced :=
  match t.connection.out with
  | [] => t
  | message :: _ =>
    { connection := t.connection.writeOneMessage
      calls := t.calls ++ [.write message.1 message.2] }

def writeLoop (t : Traced) : ℕ → Traced
  | 0 => t
  | accepts + 1 => if t.connection.hasMessage then writeLoop t.writeOneMessage accepts else t

def writeMessages (t : Traced) (accepts : ℕ) : Traced :=
  let t := t.writeLoop accepts
  if t.connection.hasMessage then t.requestWrite else t

/-- What is done with a connection; `accepts` is how often the channel takes a message before
it refuses one. -/
inductive Op where
  | sendText (message : Bytes)
  | sendBinary (message : Bytes)
  | enqueueText (message : Bytes)
  | enqueueBinary (message : Bytes)
  | writeMessages (accepts : ℕ)

def next (t : Traced) : Op → Traced
  | .sendText message => t.sendText message
  | .sendBinary message => t.sendBinary message
  | .enqueueText message => t.enqueueText message
  | .enqueueBinary message => t.enqueueBinary message
  | .writeMessages accepts => t.writeMessages accepts

/-- What an operation puts into the queue. -/
def Op.enqueued : Op → List (Bytes × Format)
  | sendText message | enqueueText message => [(message, .text)]
  | sendBinary message | enqueueBinary message => [(message, .binary)]
  | writeMessages _ => []

/-- A connection from its construction on. -/
def run (address serial : ℕ) (ops : List Op) : Traced :=
  ops.foldl next { connection := { address := address, serial := serial } }

/-! ### What is kept -/

variable {t : Traced}

/-- The messages handed over, and behind them those that are still queued. -/
def messages (t : Traced) : List (Bytes × Format) := written t.calls ++ t.connection.out

theorem messages_requestWrite (t : Traced) : t.requestWrite.messages = t.messages := by
  simp [messages, requestWrite, Connection.requestWrite, written, ChannelCall.written?]

theorem messages_writeOneMessage (t : Traced) : t.writeOneMessage.messages = t.messages := by
  unfold writeOneMessage messages Connection.writeOneMessage
  cases hout : t.connection.out with
  | nil => simp only [hout]
  | cons message out => simp [written, ChannelCall.written?]

theorem messages_writeLoop (t : Traced) (accepts : ℕ) :
    (t.writeLoop accepts).messages = t.messages := by
  induction accepts generalizing t with
  | zero => rfl
  | succ n ih =>
    rw [writeLoop]
    split_ifs
    · exact (ih _).trans t.messages_writeOneMessage
    · rfl

theorem messages_writeMessages (t : Traced) (accepts : ℕ) :
    (t.writeMessages accepts).messages = t.messages := by
  unfold writeMessages
  dsimp only
  split_ifs
  · exact (messages_requestWrite _).trans (t.messages_writeLoop accepts)
  · exact t.messages_writeLoop accepts

theorem messages_next (t : Traced) (op : Op) :
    (t.next op).messages = t.messages ++ op.enqueued := by
  have htext (message : Bytes) :
      (t.enqueueText message).messages = t.messages ++ [(message, .text)] :=
    (List.append_assoc _ _ _).symm
  have hbinary (message : Bytes) :
      (t.enqueueBinary message).messages = t.messages ++ [(message, .binary)] :=
    (List.append_assoc _ _ _).symm
  cases op with
  | sendText message => exact (messages_requestWrite _).trans (htext message)
  | sendBinary message => exact (messages_requestWrite _).trans (hbinary message)
  | enqueueText message => exact htext message
  | enqueueBinary message => exact hbinary message
  | writeMessages accepts =>
    exact (t.messages_writeMessages accepts).trans (List.append_nil _).symm

theorem messages_foldl (t : Traced) (ops : List Op) :
    (ops.foldl next t).messages = t.messages ++ ops.flatMap Op.enqueued := by
  induction ops generalizing t with
  | nil => exact (List.append_nil _).symm
  | cons op ops ih => rw [List.foldl_cons, ih, messages_next, List.append_assoc, List.flatMap_cons]

/-- A connection that stops with messages in its queue asks to be called again. -/
theorem requested_writeMessages (t : Traced) (accepts : ℕ)
    (h : (t.writeMessages accepts).connection.out ≠ []) :
    RequestedSinceWrite (t.writeMessages accepts).calls := by
  unfold writeMessages at h ⊢
  dsimp only at h ⊢
  split_ifs at h ⊢ with hmessage
  · exact ⟨(t.writeLoop accepts).calls, [], rfl, rfl⟩
  · have hempty : (t.writeLoop accepts).connection.out.isEmpty = true := by
      simpa [Connection.hasMessage] using hmessage
    exact absurd (List.isEmpty_iff.mp hempty) h

/-- The history does not change what is done with the connection. -/
theorem connection_next (t : Traced) (op : Op) : (t.next op).connection =
    match op with
    | .sendText message => t.connection.sendText message
    | .sendBinary message => t.connection.sendBinary message
    | .enqueueText message => t.connection.enqueueText message
    | .enqueueBinary message => t.connection.enqueueBinary message
    | .writeMessages accepts => t.connection.writeMessages accepts := by
  cases op with
  | writeMessages accepts =>
    have hone (t : Traced) : t.writeOneMessage.connection = t.connection.writeOneMessage := by
      unfold writeOneMessage Connection.writeOneMessage
      split <;> simp_all
    have hloop : (t.writeLoop accepts).connection = t.connection.writeLoop accepts := by
      induction accepts generalizing t with
      | zero => rfl
      | succ n ih =>
        rw [writeLoop, Connection.writeLoop, ← hone, ← ih]
        split_ifs <;> rfl
    simp only [next, writeMessages, Connection.writeMessages, ← hloop]
    split_ifs <;> rfl
  | _ => rfl

/-- What libwebsockets is given to write is what was enqueued, as far as it has come. -/
theorem sent_prefix (address serial : ℕ) (ops : List Op) :
    (written (run address serial ops).calls).map (fun m => Channel.write m.1 m.2) <+:
      (ops.flatMap Op.enqueued).map fun m => (m.1, Channel.getProtocol m.2) := by
  have hmessages := messages_foldl { connection := { address := address, serial := serial } } ops
  simp only [Channel.write_eq]
  exact List.IsPrefix.map _ ⟨_, hmessages⟩

/-- In every run, what was handed to the channel and what is still queued make up what was
enqueued, in order and format, and a queue is never left without a callback. -/
theorem run_complete (address serial : ℕ) (ops : List Op) :
    written (run address serial ops).calls ++ (run address serial ops).connection.out =
      ops.flatMap Op.enqueued ∧
    ∀ accepts, (run address serial (ops ++ [.writeMessages accepts])).connection.out ≠ [] →
      RequestedSinceWrite (run address serial (ops ++ [.writeMessages accepts])).calls := by
  refine ⟨messages_foldl _ ops, fun accepts h => ?_⟩
  rw [run, List.foldl_append] at h ⊢
  exact requested_writeMessages _ accepts h

end Traced
end Rockets.Ws
