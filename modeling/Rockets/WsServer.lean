import Rockets.Machine
import Rockets.WsMessageHandler

set_option autoImplicit false

/-!
# The websocket side of the server

`Server::Impl` and the operations libwebsockets and the application call on it. Each
of them holds `wsConnectionsMutex` from its first to its last statement, so it is one
step of the machine.
-/
namespace Rockets.Ws

structure Server (α : Type) where
  wsConnections : Connections := ∅
  wsHandler : MessageHandler α := {}
  app : α
  /-- Whether there are service threads, and whether one of them has to broadcast. -/
  serviceThreadPool : Bool := false
  broadcastRequested : Bool := false
  /-- How many connection objects were ever made. -/
  serials : ℕ := 0
  /-- Every invocation of a text or binary callback, oldest first. -/
  invocations : List Invocation := []

namespace Server
variable {α : Type}

def openWsConnection (s : Server α) (wsi address : ℕ) : Server α :=
  let connection : Connection := { address := address, serial := s.serials }
  let (connections, app) := s.wsHandler.handleOpenConnection connection
    (s.wsConnections.emplace wsi connection) s.app
  { s with wsConnections := connections, app := app, serials := s.serials + 1 }

def closeWsConnection (s : Server α) (wsi : ℕ) : Server α :=
  match s.wsConnections.find? wsi with
  | none => s
  | some connection =>
    let (connections, app) := s.wsHandler.handleCloseConnection connection s.wsConnections s.app
    { s with wsConnections := connections.erase wsi, app := app }

def handleReceive (s : Server α) (wsi : ℕ) (f : Fragment) : Server α :=
  match s.wsConnections.find? wsi with
  | none => s
  | some connection =>
    let r := s.wsHandler.handleMessage connection f s.wsConnections s.app
    { s with
      wsHandler := r.handler
      wsConnections := r.connections
      app := r.app
      invocations := s.invocations ++ r.invoked.toList }

def handleWrite (s : Server α) (wsi accepts : ℕ) : Server α :=
  { s with wsConnections := s.wsConnections.mapValues fun w c =>
      if w = wsi then { c with writeRequested := false }.writeMessages accepts else c }

/-- `lws_callback_on_writable_all_protocol`. -/
def requestWriteAll (s : Server α) : Server α :=
  { s with wsConnections := s.wsConnections.mapValues fun _ c => c.requestWrite }

def requestBroadcast (s : Server α) : Server α :=
  if s.serviceThreadPool then { s with broadcastRequested := true } else s.requestWriteAll

def handleBroadcastRequest (s : Server α) : Server α :=
  if s.broadcastRequested then { s.requestWriteAll with broadcastRequested := false } else s

/-- The loop the messaging operations share: enqueue on some of the connections. -/
def enqueueOn (s : Server α) (select : Connection → Bool)
    (enqueue : Connection → Connection) : Server α :=
  { s with wsConnections :=
      s.wsConnections.mapValues fun _ c => if select c then enqueue c else c }

def broadcastText (s : Server α) (message : Bytes) : Server α :=
  (s.enqueueOn (fun _ => true) (·.enqueueText message)).requestBroadcast

def broadcastTextFiltered (s : Server α) (message : Bytes) (filter : List ℕ) : Server α :=
  (s.enqueueOn (fun c => !filter.contains c.address) (·.enqueueText message)).requestBroadcast

def sendText (s : Server α) (message : Bytes) (client : ℕ) : Server α :=
  (s.enqueueOn (fun c => client == c.address) (·.enqueueText message)).requestBroadcast

def broadcastBinary (s : Server α) (data : Bytes) : Server α :=
  (s.enqueueOn (fun _ => true) (·.enqueueBinary data)).requestBroadcast

def getConnectionCount (s : Server α) : ℕ := s.wsConnections.entries.length

/-- What libwebsockets or the application asks of the server. -/
inductive Event (α : Type) where
  | openConnection (wsi address : ℕ)
  | closeConnection (wsi : ℕ)
  | receive (wsi : ℕ) (f : Fragment)
  | writeable (wsi accepts : ℕ)
  | serviceThread
  | reply (serial : ℕ) (message : Bytes)
  | broadcastText (message : Bytes)
  | broadcastTextFiltered (message : Bytes) (filter : List ℕ)
  | sendText (message : Bytes) (client : ℕ)
  | broadcastBinary (data : Bytes)
  | handleOpen (callback : Option (ConnectionCallback α))
  | handleClose (callback : Option (ConnectionCallback α))
  | handleText (callback : Option (MessageCallback α))
  | handleTextAsync (callback : Option (MessageCallbackAsync α))
  | handleBinary (callback : Option (MessageCallback α))

/-- libwebsockets opens a connection once and then only reports on open ones; the
new connection object is distinct from the live ones. -/
def Enabled (s : Server α) : Event α → Prop
  | .openConnection wsi address =>
    s.wsConnections.find? wsi = none ∧ ∀ e ∈ s.wsConnections.entries, e.2.address ≠ address
  | .closeConnection wsi | .receive wsi _ | .writeable wsi _ => s.wsConnections.contains wsi
  | _ => True

instance (s : Server α) (e : Event α) : Decidable (s.Enabled e) :=
  match e with
  | .openConnection _ _ => inferInstanceAs (Decidable (_ ∧ _))
  | .closeConnection _ | .receive _ _ | .writeable _ _ => inferInstanceAs (Decidable (_ = true))
  | .serviceThread | .reply _ _ | .broadcastText _ | .broadcastTextFiltered _ _ | .sendText _ _
  | .broadcastBinary _ | .handleOpen _ | .handleClose _ | .handleText _ | .handleTextAsync _
  | .handleBinary _ => isTrue trivial

def next (s : Server α) : Event α → Server α
  | .openConnection wsi address => s.openWsConnection wsi address
  | .closeConnection wsi => s.closeWsConnection wsi
  | .receive wsi f => s.handleReceive wsi f
  | .writeable wsi accepts => s.handleWrite wsi accepts
  | .serviceThread => s.handleBroadcastRequest
  | .reply serial message => { s with wsConnections := Ws.reply serial message s.wsConnections }
  | .broadcastText message => s.broadcastText message
  | .broadcastTextFiltered message filter => s.broadcastTextFiltered message filter
  | .sendText message client => s.sendText message client
  | .broadcastBinary data => s.broadcastBinary data
  | .handleOpen callback => { s with wsHandler.callbackOpen := callback }
  | .handleClose callback => { s with wsHandler.callbackClose := callback }
  | .handleText callback => { s with wsHandler.callbackText := callback }
  | .handleTextAsync callback => { s with wsHandler.callbackTextAsync := callback }
  | .handleBinary callback => { s with wsHandler.callbackBinary := callback }

def machine (app : α) (serviceThreadPool : Bool) : Machine (Server α) (Event α) where
  init := { app := app, serviceThreadPool := serviceThreadPool }
  Enabled := Enabled
  next := next

/-- What every operation that only touches the queues of connections leaves alone. -/
structure SameReception (s t : Server α) : Prop where
  handler : t.wsHandler = s.wsHandler
  invocations : t.invocations = s.invocations
  address : ∀ wsi, addressOf t.wsConnections wsi = addressOf s.wsConnections wsi

theorem SameReception.trans {s t u : Server α} (h : SameReception s t)
    (h' : SameReception t u) : SameReception s u :=
  ⟨h'.handler.trans h.handler, h'.invocations.trans h.invocations,
    fun wsi => (h'.address wsi).trans (h.address wsi)⟩

theorem sameReception_mapValues (s : Server α) (f : ℕ → Connection → Connection)
    (hf : ∀ w c, (f w c).address = c.address) :
    SameReception s { s with wsConnections := s.wsConnections.mapValues f } :=
  ⟨rfl, rfl, addressOf_mapValues _ f hf⟩

theorem sameReception_requestBroadcast (s : Server α) : SameReception s s.requestBroadcast := by
  unfold requestBroadcast
  split_ifs
  · exact ⟨rfl, rfl, fun _ => rfl⟩
  · exact sameReception_mapValues s _ fun _ _ => rfl

theorem sameReception_enqueueOn (s : Server α) (select : Connection → Bool)
    (enqueue : Connection → Connection) (h : ∀ c, (enqueue c).address = c.address) :
    SameReception s (s.enqueueOn select enqueue).requestBroadcast := by
  refine .trans (sameReception_mapValues s _ fun _ c => ?_) (sameReception_requestBroadcast _)
  split_ifs
  · exact h c
  · rfl

theorem sameReception_handleWrite (s : Server α) (wsi accepts : ℕ) :
    SameReception s (s.handleWrite wsi accepts) := by
  refine sameReception_mapValues s _ fun w c => ?_
  split_ifs
  · exact Connection.address_writeMessages _ _
  · rfl

theorem sameReception_handleBroadcastRequest (s : Server α) :
    SameReception s s.handleBroadcastRequest := by
  unfold handleBroadcastRequest
  split_ifs
  · have h := sameReception_mapValues s (fun _ c => c.requestWrite) fun _ _ => rfl
    exact ⟨h.handler, h.invocations, h.address⟩
  · exact ⟨rfl, rfl, fun _ => rfl⟩

theorem sameReception_reply (s : Server α) (serial : ℕ) (message : Bytes) :
    SameReception s { s with wsConnections := Ws.reply serial message s.wsConnections } :=
  ⟨rfl, rfl, addressOf_reply _ _ _⟩

theorem openWsConnection_spec (s : Server α) (wsi address : ℕ)
    (h : s.wsConnections.find? wsi = none) :
    (s.openWsConnection wsi address).wsHandler = s.wsHandler ∧
    (s.openWsConnection wsi address).invocations = s.invocations ∧
    ∀ w, addressOf (s.openWsConnection wsi address).wsConnections w =
      if w = wsi then some address else addressOf s.wsConnections w := by
  refine ⟨rfl, rfl, fun w => ?_⟩
  refine (MessageHandler.addressOf_notifyConnection _ _ _ _ w).trans ?_
  rw [addressOf, OrderedMap.find?_emplace, h]
  split_ifs <;> rfl

theorem closeWsConnection_spec (s : Server α) (wsi : ℕ) :
    (s.closeWsConnection wsi).wsHandler = s.wsHandler ∧
    (s.closeWsConnection wsi).invocations = s.invocations ∧
    ∀ w, addressOf (s.closeWsConnection wsi).wsConnections w =
      if w = wsi then none else addressOf s.wsConnections w := by
  unfold closeWsConnection
  cases h : s.wsConnections.find? wsi with
  | none =>
    refine ⟨rfl, rfl, fun w => ?_⟩
    split_ifs with hw
    · simp only [addressOf, hw, h, Option.map_none]
    · rfl
  | some connection =>
    refine ⟨rfl, rfl, fun w => ?_⟩
    have hn := MessageHandler.addressOf_notifyConnection s.wsHandler.callbackClose connection
      s.wsConnections s.app w
    simp only [addressOf, OrderedMap.find?_erase]
    split_ifs
    · rfl
    · exact hn

theorem handleReceive_spec (s : Server α) (wsi address : ℕ) (f : Fragment)
    (h : addressOf s.wsConnections wsi = some address) :
    (∀ w, addressOf (s.handleReceive wsi f).wsConnections w = addressOf s.wsConnections w) ∧
    (f.hasMore = true →
      (s.handleReceive wsi f).wsHandler =
        { s.wsHandler with buffer := s.wsHandler.buffer ++ f.data } ∧
      (s.handleReceive wsi f).invocations = s.invocations) ∧
    (f.hasMore = false →
      (s.handleReceive wsi f).wsHandler = { s.wsHandler with buffer := [] } ∧
      (s.handleReceive wsi f).invocations = s.invocations ++
        ((s.wsHandler.callbackFor f.isBinary).map
          (⟨·, ⟨s.wsHandler.buffer ++ f.data, address⟩⟩)).toList) := by
  obtain ⟨connection, hc, rfl⟩ := Option.map_eq_some_iff.mp h
  unfold handleReceive
  simp only [hc]
  refine ⟨fun w => MessageHandler.addressOf_handleMessage _ _ _ _ _ w, fun hm => ?_, fun hm => ?_⟩
  · rw [MessageHandler.handleMessage_more _ _ _ _ _ hm]
    exact ⟨rfl, List.append_nil _⟩
  · obtain ⟨hh, hi⟩ := s.wsHandler.handleMessage_last connection f s.wsConnections s.app hm
    exact ⟨hh, by rw [hi]⟩

end Server
end Rockets.Ws
