import Rockets.Machine
import Rockets.WsConnection

set_option autoImplicit false

/-!
# Service threads and application threads

The websocket side of a server in steps as small as its threads take them. The messaging
operations hold `wsConnectionsMutex` and set the flag of each service thread; a service thread
runs libwebsockets and then looks at its flag. The callbacks of the application run in
service threads, which hold the mutex meanwhile.
-/
namespace Rockets.Ws.Threads
open Function (update)

inductive Operation where
  | broadcastText (message : Bytes)
  | broadcastTextFiltered (message : Bytes) (filter : List ℕ)
  | sendText (message : Bytes) (client : ℕ)
  | broadcastBinary (data : Bytes)
  | getConnectionCount
  deriving DecidableEq

namespace Operation

/-- The body of the loop over the connections. -/
def visit : Operation → Connection → Connection
  | broadcastText message, c => c.enqueueText message
  | broadcastTextFiltered message filter, c =>
    if filter.contains c.address then c else c.enqueueText message
  | sendText message client, c => if client == c.address then c.enqueueText message else c
  | broadcastBinary data, c => c.enqueueBinary data
  | getConnectionCount, c => c

/-- The operation ends with `requestBroadcast`. -/
def requestsBroadcast : Operation → Bool
  | getConnectionCount => false
  | _ => true

@[simp] theorem writeRequested_visit (op : Operation) (c : Connection) :
    (op.visit c).writeRequested = c.writeRequested := by
  cases op with
  | broadcastTextFiltered message filter =>
    simp only [visit]
    split_ifs <;> rfl
  | sendText message client =>
    simp only [visit]
    split_ifs <;> rfl
  | broadcastText _ | broadcastBinary _ | getConnectionCount => rfl

theorem visit_of_silent {op : Operation} (h : op.requestsBroadcast = false) (c : Connection) :
    op.visit c = c := by
  cases op with
  | getConnectionCount => rfl
  | broadcastText _ | broadcastTextFiltered _ _ | sendText _ _ | broadcastBinary _ => cases h

end Operation

/-- How far a thread is in an operation: what is left of the loop over the connections, and
of the loop over the flags. -/
inductive Progress (n : ℕ) where
  | locking (op : Operation)
  | enqueuing (op : Operation) (rest : List ℕ)
  | requesting (rest : List (Fin n))
  deriving DecidableEq

/-- The functions of `Server::Impl` that run callbacks. -/
inductive Entry where
  | open (wsi address : ℕ)
  | close (wsi : ℕ)
  | receive (wsi : ℕ)
  deriving DecidableEq

/-- Where a service thread is: in libwebsockets; with a writable callback that it consumed;
in `writeMessages`; in a callback, with the operations it has yet to perform; in
`handleBroadcastRequest`, with the connections it has yet to request a callback for. -/
inductive Phase where
  | service
  | serving (wsi : ℕ)
  | writing (wsi : ℕ)
  | callback (entry : Entry) (ops : List Operation)
  | requesting (rest : List ℕ)
  deriving DecidableEq

/-- A connection and the service thread that serves it. -/
structure Socket (n : ℕ) extends Connection where
  tsi : Fin n

def Socket.update {n : ℕ} (k : Socket n) (f : Connection → Connection) : Socket n :=
  { k with toConnection := f k.toConnection }

/-- Service threads, then application threads. -/
abbrev Thread (n : ℕ) (π : Type) := Fin n ⊕ π

structure State (n : ℕ) (π : Type) where
  connections : OrderedMap ℕ (Socket n) := ∅
  broadcastRequested : Fin n → Bool
  mutex : Option (Thread n π) := none
  phase : Fin n → Phase := fun _ => .service
  running : Thread n π → Option (Progress n) := fun _ => none

/-- Shared by the literals that name the only thread of a pool. -/
instance instNeZeroThread : NeZero 1 := ⟨by decide⟩

inductive Event (n : ℕ) (π : Type) where
  | begin (p : π) (op : Operation)
  | lock (x : Thread n π)
  | enqueue (x : Thread n π)
  | request (x : Thread n π)
  | setFlag (x : Thread n π)
  | unlock (x : Thread n π)
  | enter (t : Fin n) (entry : Entry) (ops : List Operation)
  | perform (t : Fin n)
  | reply (t : Fin n) (wsi : ℕ) (message : Bytes)
  | leave (t : Fin n)
  | consume (t : Fin n) (wsi : ℕ)
  | lockWrite (t : Fin n)
  | write (t : Fin n)
  | unlockWrite (t : Fin n)
  | readFlag (t : Fin n)
  | requestWrite (t : Fin n)
  | clearFlag (t : Fin n)

namespace State
variable {n : ℕ} {π : Type} (s : State n π)

/-- What a thread does to the entry of one connection. -/
def onConnection (wsi : ℕ) (f : Connection → Connection) : State n π :=
  { s with connections := s.connections.mapValues fun w k => if w = wsi then k.update f else k }

def setPhase (t : Fin n) (phase : Phase) : State n π := { s with phase := update s.phase t phase }

def setRunning [DecidableEq π] (x : Thread n π) (progress : Option (Progress n)) : State n π :=
  { s with running := update s.running x progress }

@[simp] theorem find?_onConnection (wsi w : ℕ) (f : Connection → Connection) :
    (s.onConnection wsi f).connections.find? w =
      (s.connections.find? w).map fun k => if w = wsi then k.update f else k :=
  OrderedMap.find?_mapValues _ _ w

/-- The connection as the entry function finds it. -/
def EntryEnabled (t : Fin n) : Entry → Prop
  | .open wsi address => s.connections.find? wsi = none ∧
    ∀ e ∈ s.connections.entries, e.2.address ≠ address
  | .close wsi | .receive wsi => ∃ k ∈ s.connections.find? wsi, k.tsi = t

/-- Locking waits for the mutex, which is not recursive, also where the thread has it. -/
def Enabled : Event n π → Prop
  | .begin p _ => s.running (.inr p) = none
  | .lock x => s.mutex = none ∧ ∃ op, s.running x = some (.locking op)
  | .enqueue x => ∃ op wsi rest, s.running x = some (.enqueuing op (wsi :: rest))
  | .request x => ∃ op, s.running x = some (.enqueuing op [])
  | .setFlag x => ∃ tsi rest, s.running x = some (.requesting (tsi :: rest))
  | .unlock x => s.running x = some (.requesting [])
  | .enter t entry _ => s.mutex = none ∧ s.phase t = .service ∧ s.EntryEnabled t entry
  | .perform t => s.running (.inl t) = none ∧
    ∃ entry op ops, s.phase t = .callback entry (op :: ops)
  | .reply t _ _ => s.running (.inl t) = none ∧ ∃ entry ops, s.phase t = .callback entry ops
  | .leave t => s.running (.inl t) = none ∧ ∃ entry, s.phase t = .callback entry []
  | .consume t wsi => s.phase t = .service ∧
    ∃ k ∈ s.connections.find? wsi, k.tsi = t ∧ k.writeRequested = true
  | .lockWrite t => s.mutex = none ∧ ∃ wsi, s.phase t = .serving wsi
  | .write t => ∃ wsi, s.phase t = .writing wsi ∧
    ∃ k ∈ s.connections.find? wsi, k.hasMessage = true
  | .unlockWrite t => ∃ wsi, s.phase t = .writing wsi
  | .readFlag t => s.phase t = .service
  | .requestWrite t => ∃ wsi rest, s.phase t = .requesting (wsi :: rest)
  | .clearFlag t => s.phase t = .requesting []

/-- The connection is in the table before the open callback and until the close callback
returns. -/
def enter (t : Fin n) (entry : Entry) (ops : List Operation) : State n π :=
  let s := { s with mutex := some (.inl t) }.setPhase t (.callback entry ops)
  match entry with
  | .open wsi address => { s with
      connections := s.connections.emplace wsi { address, serial := 0, tsi := t } }
  | .close _ | .receive _ => s

def leave (t : Fin n) (entry : Entry) : State n π :=
  let s := { s with mutex := none }.setPhase t .service
  match entry with
  | .close wsi => { s with connections := s.connections.erase wsi }
  | .open _ _ | .receive _ => s

section Fields
variable {s} (wsi : ℕ) (f : Connection → Connection) (t : Fin n) (phase : Phase) (entry : Entry)
  (ops : List Operation)

@[simp] theorem mutex_onConnection : (s.onConnection wsi f).mutex = s.mutex := rfl
@[simp] theorem phase_onConnection : (s.onConnection wsi f).phase = s.phase := rfl
@[simp] theorem running_onConnection : (s.onConnection wsi f).running = s.running := rfl
@[simp] theorem mutex_setPhase : (s.setPhase t phase).mutex = s.mutex := rfl
@[simp] theorem phase_setPhase : (s.setPhase t phase).phase = update s.phase t phase := rfl
@[simp] theorem running_setPhase : (s.setPhase t phase).running = s.running := rfl

@[simp] theorem mutex_setRunning [DecidableEq π] (x : Thread n π) (p : Option (Progress n)) :
    (s.setRunning x p).mutex = s.mutex := rfl

@[simp] theorem phase_setRunning [DecidableEq π] (x : Thread n π) (p : Option (Progress n)) :
    (s.setRunning x p).phase = s.phase := rfl

@[simp] theorem running_setRunning [DecidableEq π] (x : Thread n π) (p : Option (Progress n)) :
    (s.setRunning x p).running = update s.running x p := rfl

@[simp] theorem mutex_enter : (s.enter t entry ops).mutex = some (.inl t) := by
  cases entry <;> rfl

@[simp] theorem phase_enter :
    (s.enter t entry ops).phase = update s.phase t (.callback entry ops) := by
  cases entry <;> rfl

@[simp] theorem running_enter : (s.enter t entry ops).running = s.running := by
  cases entry <;> rfl

@[simp] theorem mutex_leave : (s.leave t entry).mutex = none := by cases entry <;> rfl

@[simp] theorem phase_leave : (s.leave t entry).phase = update s.phase t .service := by
  cases entry <;> rfl

@[simp] theorem running_leave : (s.leave t entry).running = s.running := by cases entry <;> rfl

end Fields

def next [DecidableEq π] : Event n π → State n π
  | .begin p op => s.setRunning (.inr p) (some (.locking op))
  | .lock x => match s.running x with
    | some (.locking op) =>
      { s with mutex := some x }.setRunning x (some (.enqueuing op s.connections.keys))
    | _ => s
  | .enqueue x => match s.running x with
    | some (.enqueuing op (wsi :: rest)) =>
      (s.onConnection wsi op.visit).setRunning x (some (.enqueuing op rest))
    | _ => s
  | .request x => match s.running x with
    | some (.enqueuing op _) => s.setRunning x
      (some (.requesting (if op.requestsBroadcast then List.finRange n else [])))
    | _ => s
  | .setFlag x => match s.running x with
    | some (.requesting (tsi :: rest)) =>
      { s with broadcastRequested := update s.broadcastRequested tsi true }.setRunning x
        (some (.requesting rest))
    | _ => s
  | .unlock x => { s with mutex := none }.setRunning x none
  | .enter t entry ops => s.enter t entry ops
  | .perform t => match s.phase t with
    | .callback entry (op :: ops) =>
      (s.setPhase t (.callback entry ops)).setRunning (.inl t) (some (.locking op))
    | _ => s
  | .reply _ wsi message => s.onConnection wsi (·.sendText message)
  | .leave t => match s.phase t with
    | .callback entry _ => s.leave t entry
    | _ => s
  | .consume t wsi =>
    (s.onConnection wsi fun c => { c with writeRequested := false }).setPhase t (.serving wsi)
  | .lockWrite t => match s.phase t with
    | .serving wsi => { s with mutex := some (.inl t) }.setPhase t (.writing wsi)
    | _ => s
  | .write t => match s.phase t with
    | .writing wsi => s.onConnection wsi Connection.writeOneMessage
    | _ => s
  | .unlockWrite t => match s.phase t with
    | .writing wsi => ({ s with mutex := none }.onConnection wsi fun c =>
        if c.hasMessage then c.requestWrite else c).setPhase t .service
    | _ => s
  | .readFlag t =>
    if s.broadcastRequested t then s.setPhase t (.requesting s.connections.keys) else s
  | .requestWrite t => match s.phase t with
    | .requesting (wsi :: rest) =>
      (s.onConnection wsi Connection.requestWrite).setPhase t (.requesting rest)
    | _ => s
  | .clearFlag t =>
    { s with broadcastRequested := update s.broadcastRequested t false }.setPhase t .service

end State

variable {n : ℕ} {π : Type} [DecidableEq π]

/-- What the flags are before they are first set is anything. -/
def machine (flags : Fin n → Bool) : Machine (State n π) (Event n π) where
  init := { broadcastRequested := flags }
  Enabled := State.Enabled
  next s e := s.next e

end Rockets.Ws.Threads
