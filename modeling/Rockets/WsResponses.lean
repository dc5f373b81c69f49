import Rockets.WsServer

set_option autoImplicit false

/-!
# Responses to websocket connections

What the responses of a callback add to the queues of all open connections. The message of a
response is moved from a constant reference, that is copied, so that every receiver gets it.
-/
namespace Rockets.Ws

/-- Whether a connection is a receiver, given whether it is the sender. -/
def Recipient.includes (recipient : Recipient) (isSender : Bool) : Bool :=
  match recipient with
  | sender => isSender
  | others => !isSender
  | all => true

/-- What a response adds to the queue of a connection. Without a format of its own it takes
that of the message it answers; there is none when a connection opens or closes. -/
def Response.addition (response : Response) (incoming : Option Format) (isSender : Bool) :
    List (Bytes × Format) :=
  if response.message = [] ∨ response.recipient.includes isSender = false then []
  else match response.format, incoming with
    | .text, _ => [(response.message, .text)]
    | .binary, _ => [(response.message, .binary)]
    | .unspecified, some format => [(response.message, format)]
    | .unspecified, none => []

/-- Live connection objects have different addresses. -/
def Separate (connections : Connections) : Prop :=
  ∀ w w' a, addressOf connections w = some a → addressOf connections w' = some a → w = w'

/-- The connections are the same ones, each with some messages more in its queue. -/
def Queued (before after : Connections) (messages : ℕ → List (Bytes × Format)) : Prop :=
  ∀ w, (after.find? w).map Connection.out =
    (before.find? w).map fun c => c.out ++ messages w

/-- The callback that answers complete messages of a format. -/
def MessageHandler.messageCallback {α : Type} (h : MessageHandler α) (isBinary : Bool) :
    Option (MessageCallback α) :=
  if isBinary then h.callbackBinary else h.callbackText

section Sending
variable {connections before after : Connections} {sender : Connection} {wsi : ℕ}

theorem Queued.refl (connections : Connections) : Queued connections connections fun _ => [] := by
  intro w
  simp only [List.append_nil]

theorem Queued.trans {later : Connections} {ms ns : ℕ → List (Bytes × Format)}
    (h : Queued before after ms) (h' : Queued after later ns) :
    Queued before later fun w => ms w ++ ns w := by
  intro w
  have hout : (later.find? w).map Connection.out =
      ((after.find? w).map Connection.out).map (· ++ ns w) := by
    rw [h' w, Option.map_map]
    rfl
  rw [hout, h w, Option.map_map]
  exact congrArg (Option.map · _) (funext fun c => List.append_assoc _ _ _)

theorem out_sendResponse (response : Response) (c : Connection) (isSender : Bool)
    (hne : response.message ≠ []) (hto : response.recipient.includes isSender = true) :
    (sendResponse response c).out = c.out ++ response.addition none isSender := by
  unfold sendResponse Response.addition
  rw [if_neg (by simp [hne, hto])]
  cases response.format with
  | text => rfl
  | binary => rfl
  | unspecified => exact (List.append_nil _).symm

theorem addition_of_excluded {response : Response} {isSender : Bool}
    (h : response.recipient.includes isSender = false) (incoming : Option Format) :
    response.addition incoming isSender = [] := if_pos (.inr h)

theorem sendResponseToRecipient_eq (response : Response) (sender : Connection)
    (connections : Connections) (hne : response.message ≠ []) :
    sendResponseToRecipient response sender connections = connections.mapValues fun _ c =>
      if response.recipient.includes (c.address = sender.address) then sendResponse response c
      else c := by
  unfold sendResponseToRecipient
  rw [if_neg hne]
  cases response.recipient with
  | sender => simp [Recipient.includes]
  | others => simp [Recipient.includes]
  | all => rfl

/-- One response is queued once for each of its receivers. -/
theorem queued_sendResponseToRecipient (hsep : Separate connections)
    (hsender : addressOf connections wsi = some sender.address) (response : Response) :
    Queued connections (sendResponseToRecipient response sender connections)
      fun w => response.addition none (w = wsi) := by
  intro w
  by_cases hempty : response.message = []
  · simp [sendResponseToRecipient, Response.addition, hempty]
  · rw [sendResponseToRecipient_eq _ _ _ hempty, OrderedMap.find?_mapValues, Option.map_map]
    cases hfind : connections.find? w with
    | none => rfl
    | some c =>
      have haddress : addressOf connections w = some c.address := by rw [addressOf, hfind]; rfl
      have hsame : decide (c.address = sender.address) = decide (w = wsi) := by
        refine decide_eq_decide.mpr ⟨fun heq => ?_, fun heq => ?_⟩
        · exact hsep w wsi _ haddress (hsender.trans (congrArg some heq.symm))
        · subst heq
          exact Option.some.inj (haddress.symm.trans hsender)
      simp only [Option.map_some, Function.comp_apply, hsame]
      cases hto : response.recipient.includes (decide (w = wsi)) with
      | true => rw [if_pos rfl, out_sendResponse response c _ hempty hto]
      | false => rw [addition_of_excluded hto, List.append_nil]; rfl

theorem Separate.of_addressOf (h : Separate before)
    (haddress : ∀ w, addressOf after w = addressOf before w) : Separate after := by
  intro w w' a hw hw'
  exact h w w' a ((haddress w).symm.trans hw) ((haddress w').symm.trans hw')

theorem queued_foldl (hsep : Separate connections)
    (hsender : addressOf connections wsi = some sender.address) (responses : List Response) :
    Queued connections
      (responses.foldl (fun cs r => sendResponseToRecipient r sender cs) connections)
      fun w => responses.flatMap (·.addition none (w = wsi)) := by
  induction responses generalizing connections with
  | nil => exact .refl _
  | cons r rs ih =>
    have haddress := addressOf_sendResponseToRecipient r sender connections
    exact (queued_sendResponseToRecipient hsep hsender r).trans
      (ih (hsep.of_addressOf haddress) ((haddress wsi).trans hsender))

end Sending

namespace MessageHandler
variable {α : Type} {connections : Connections} {c : Connection} {wsi : ℕ}

/-- The response without a format is sent in the format of the message. -/
theorem addition_with_format (response : Response) {format : Format}
    (hformat : format ≠ .unspecified) (isSender : Bool) :
    (if response.format = .unspecified then { response with format := format } else
      response).addition none isSender = response.addition (some format) isSender := by
  obtain ⟨message, recipient, own⟩ := response
  cases own with
  | text => rfl
  | binary => rfl
  | unspecified =>
    cases format with
    | text => rfl
    | binary => rfl
    | unspecified => exact absurd rfl hformat

theorem queued_finishMessage (h : MessageHandler α) (hsep : Separate connections)
    (hsender : addressOf connections wsi = some c.address) (response : Response) {format : Format}
    (hformat : format ≠ .unspecified) (app : α) (invoked : Option Invocation) :
    Queued connections (h.finishMessage response format c connections app invoked).connections
      fun w => response.addition (some format) (w = wsi) := by
  have hqueued := queued_sendResponseToRecipient hsep hsender
    (if response.format = .unspecified then { response with format := format } else response)
  simp only [addition_with_format response hformat] at hqueued
  exact hqueued

theorem queued_handleMessage (h : MessageHandler α) (hsep : Separate connections)
    (hsender : addressOf connections wsi = some c.address) (app : α) {f : Fragment}
    (hlast : f.hasMore = false) {callback : MessageCallback α}
    (hcallback : h.messageCallback f.isBinary = some callback) :
    Queued connections (h.handleMessage c f connections app).connections fun w =>
      (callback ⟨h.buffer ++ f.data, c.address⟩ app).1.addition
        (some f.getCurrentMessageFormat) (w = wsi) := by
  obtain ⟨data, hasMore, isBinary⟩ := f
  obtain rfl : hasMore = false := hlast
  cases isBinary with
  | true =>
    have hcallback : h.callbackBinary = some callback := hcallback
    have hqueued := queued_finishMessage { h with buffer := h.buffer ++ data } hsep hsender
      (callback ⟨h.buffer ++ data, c.address⟩ app).1 (by decide : Format.binary ≠ .unspecified)
      (callback ⟨h.buffer ++ data, c.address⟩ app).2
      (some ⟨.binary, ⟨h.buffer ++ data, c.address⟩⟩)
    simpa [handleMessage, Fragment.currentMessageHasMore, Fragment.getCurrentMessageFormat,
      hcallback] using hqueued
  | false =>
    have hcallback : h.callbackText = some callback := hcallback
    have hqueued := queued_finishMessage { h with buffer := h.buffer ++ data } hsep hsender
      (callback ⟨h.buffer ++ data, c.address⟩ app).1 (by decide : Format.text ≠ .unspecified)
      (callback ⟨h.buffer ++ data, c.address⟩ app).2
      (some ⟨.text, ⟨h.buffer ++ data, c.address⟩⟩)
    simpa [handleMessage, Fragment.currentMessageHasMore, Fragment.getCurrentMessageFormat,
      hcallback] using hqueued

theorem queued_notifyConnection (hsep : Separate connections)
    (hsender : addressOf connections wsi = some c.address) (app : α)
    (callback : ConnectionCallback α) :
    Queued connections (notifyConnection (some callback) c connections app).1 fun w =>
      (callback c.address app).1.flatMap (·.addition none (w = wsi)) :=
  queued_foldl hsep hsender _

/-- Every response of a callback is queued exactly once for each receiver, behind what was
queued before, and nothing else is queued. -/
theorem responses_queued (h : MessageHandler α) (hsep : Separate connections)
    (hfind : connections.find? wsi = some c) (app : α) :
    (∀ f callback, f.hasMore = false → h.messageCallback f.isBinary = some callback →
      Queued connections (h.handleMessage c f connections app).connections fun w =>
        (callback ⟨h.buffer ++ f.data, c.address⟩ app).1.addition
          (some f.getCurrentMessageFormat) (w = wsi)) ∧
    (∀ callback, h.callbackOpen = some callback →
      Queued connections (h.handleOpenConnection c connections app).1 fun w =>
        (callback c.address app).1.flatMap (·.addition none (w = wsi))) ∧
    ∀ callback, h.callbackClose = some callback →
      Queued connections (h.handleCloseConnection c connections app).1 fun w =>
        (callback c.address app).1.flatMap (·.addition none (w = wsi)) := by
  have hsender : addressOf connections wsi = some c.address := by rw [addressOf, hfind]; rfl
  refine ⟨fun f callback hlast hcallback => ?_, fun callback hopen => ?_, fun callback hclose => ?_⟩
  · exact queued_handleMessage h hsep hsender app hlast hcallback
  · rw [handleOpenConnection, hopen]
    exact queued_notifyConnection hsep hsender app callback
  · rw [handleCloseConnection, hclose]
    exact queued_notifyConnection hsep hsender app callback

def forwardingHandler : MessageHandler Unit where
  callbackText := some fun request app =>
    ({ message := request.message, recipient := .others }, app)
  callbackOpen := some fun _ app =>
    ([{ message := ascii "hello", recipient := .all, format := .text }], app)
  callbackClose := some fun _ app =>
    ([{ message := ascii "bye", recipient := .others, format := .binary }, {}], app)

def twoConnections : Connections :=
  ((∅ : Connections).set 1 { address := 10, serial := 0 }).set 2 { address := 20, serial := 1 }

theorem twoConnections_separate : Separate twoConnections := by
  have haddress : ∀ w, addressOf twoConnections w =
      if w = 2 then some 20 else if w = 1 then some 10 else none := by
    intro w
    simp only [addressOf, twoConnections, OrderedMap.find?_set, OrderedMap.find?_empty]
    split_ifs <;> rfl
  intro w w' a hw hw'
  rw [haddress] at hw hw'
  split_ifs at hw hw' <;> simp only [Option.some.injEq] at hw hw' <;> omega

theorem twoConnections_queued :
    Queued twoConnections (forwardingHandler.handleMessage { address := 10, serial := 0 }
        { data := ascii "x", hasMore := false, isBinary := false } twoConnections ()).connections
      (fun w => ({ message := ascii "x", recipient := .others } : Response).addition (some .text)
        (w = 1)) ∧
    Queued twoConnections
      (forwardingHandler.handleOpenConnection { address := 10, serial := 0 } twoConnections ()).1
      (fun w => [({ message := ascii "hello", recipient := .all, format := .text } :
        Response)].flatMap (·.addition none (w = 1))) ∧
    Queued twoConnections
      (forwardingHandler.handleCloseConnection { address := 10, serial := 0 } twoConnections ()).1
      (fun w => [({ message := ascii "bye", recipient := .others, format := .binary } : Response),
        {}].flatMap (·.addition none (w = 1))) :=
  have hfind : twoConnections.find? 1 = some { address := 10, serial := 0 } := rfl
  have h := responses_queued forwardingHandler twoConnections_separate hfind ()
  ⟨h.1 { data := ascii "x", hasMore := false, isBinary := false } _ rfl rfl,
    h.2.1 _ rfl, h.2.2 _ rfl⟩

end MessageHandler

namespace Server
variable {α : Type} {s : Server α} {e : Event α}

theorem separate_next (h : Separate s.wsConnections) (he : s.Enabled e) :
    Separate (s.next e).wsConnections := by
  have hsame {t : Server α} (ht : SameReception s t) : Separate t.wsConnections :=
    h.of_addressOf ht.address
  cases e with
  | openConnection wsi address =>
    have hopen := (s.openWsConnection_spec wsi address he.1).2.2
    have hfresh : ∀ w, addressOf s.wsConnections w ≠ some address := by
      intro w hw
      obtain ⟨c, hc, rfl⟩ := Option.map_eq_some_iff.mp hw
      exact he.2 (w, c) (OrderedMap.find?_eq_some.mp hc) rfl
    intro w w' a hw hw'
    rw [next, hopen] at hw hw'
    split_ifs at hw hw' with hwsi hwsi' hwsi'
    · exact hwsi.trans hwsi'.symm
    · exact absurd (hw'.trans hw.symm) (hfresh w')
    · exact absurd (hw.trans hw'.symm) (hfresh w)
    · exact h w w' a hw hw'
  | closeConnection wsi =>
    have hclose := (s.closeWsConnection_spec wsi).2.2
    intro w w' a hw hw'
    rw [next, hclose] at hw hw'
    split_ifs at hw hw'
    exact h w w' a hw hw'
  | receive wsi f =>
    obtain ⟨c, hc⟩ := Option.isSome_iff_exists.mp he
    have haddress : addressOf s.wsConnections wsi = some c.address := by rw [addressOf, hc]; rfl
    exact h.of_addressOf (s.handleReceive_spec wsi c.address f haddress).1
  | writeable wsi accepts => exact hsame (s.sameReception_handleWrite wsi accepts)
  | serviceThread => exact hsame s.sameReception_handleBroadcastRequest
  | reply serial message => exact hsame (s.sameReception_reply serial message)
  | broadcastText message =>
    exact hsame (s.sameReception_enqueueOn _ _ fun c => c.address_enqueueText message)
  | broadcastTextFiltered message filter =>
    exact hsame (s.sameReception_enqueueOn _ _ fun c => c.address_enqueueText message)
  | sendText message client =>
    exact hsame (s.sameReception_enqueueOn _ _ fun c => c.address_enqueueText message)
  | broadcastBinary data =>
    exact hsame (s.sameReception_enqueueOn _ _ fun c => c.address_enqueueBinary data)
  | handleOpen _ | handleClose _ | handleText _ | handleTextAsync _ | handleBinary _ => exact h

theorem separate_run {app : α} {pool : Bool} {es : List (Event α)}
    (h : (machine app pool).Run es s) : Separate s.wsConnections := by
  refine h.invariant (I := fun s => Separate s.wsConnections) ?_
    fun v e hv he _ => separate_next hv he
  intro w w' a hw
  cases hw

/-- Whatever has happened before, a message that is complete is answered to its receivers. -/
theorem receive_queued {app : α} {pool : Bool} {es : List (Event α)}
    (h : (machine app pool).Run es s) {wsi : ℕ} {c : Connection}
    (hfind : s.wsConnections.find? wsi = some c) {f : Fragment} (hlast : f.hasMore = false)
    {callback : MessageCallback α}
    (hcallback : s.wsHandler.messageCallback f.isBinary = some callback) :
    Queued s.wsConnections (s.next (.receive wsi f)).wsConnections fun w =>
      (callback ⟨s.wsHandler.buffer ++ f.data, c.address⟩ s.app).1.addition
        (some f.getCurrentMessageFormat) (w = wsi) := by
  have hsender : addressOf s.wsConnections wsi = some c.address := by rw [addressOf, hfind]; rfl
  have hqueued := s.wsHandler.queued_handleMessage (separate_run h) hsender s.app hlast hcallback
  simpa only [next, handleReceive, hfind] using hqueued

end Server
end Rockets.Ws
