import Rockets.WsConnection

set_option autoImplicit false

/-!
# The websocket message handler

One handler serves all the connections of a server. `handleMessage` runs once per
fragment: it composes the message in `buffer` and, on the last fragment, passes it
to the callback of the message's format and sends the response.
-/
namespace Rockets.Ws

abbrev Connections := OrderedMap ℕ Connection

inductive Callback where
  | text
  | textAsync
  | binary
  deriving DecidableEq, Repr

/-- An invocation of a text or binary callback. -/
structure Invocation where
  callback : Callback
  request : Request
  deriving DecidableEq, Repr

structure MessageHandler (α : Type) where
  callbackOpen : Option (ConnectionCallback α) := none
  callbackClose : Option (ConnectionCallback α) := none
  callbackText : Option (MessageCallback α) := none
  callbackTextAsync : Option (MessageCallbackAsync α) := none
  callbackBinary : Option (MessageCallback α) := none
  buffer : Bytes := []

/-- What libwebsockets knows about the fragment being received. -/
structure Fragment where
  data : Bytes
  hasMore : Bool
  isBinary : Bool
  deriving DecidableEq, Repr

namespace Fragment

def currentMessageHasMore (f : Fragment) : Bool := f.hasMore

def getCurrentMessageFormat (f : Fragment) : Format :=
  if f.isBinary then .binary else .text

end Fragment

/-- What a call of the handler leaves behind. -/
structure Handled (α : Type) where
  handler : MessageHandler α
  connections : Connections
  app : α
  invoked : Option Invocation := none

def sendResponse (response : Response) (connection : Connection) : Connection :=
  match response.format with
  | .unspecified => connection
  | .binary => connection.sendBinary response.message
  | .text => connection.sendText response.message

def sendResponseToRecipient (response : Response) (sender : Connection)
    (connections : Connections) : Connections :=
  if response.message = [] then connections
  else match response.recipient with
  | .all => connections.mapValues fun _ c => sendResponse response c
  | .others => connections.mapValues fun _ c =>
      if c.address = sender.address then c else sendResponse response c
  | .sender => connections.mapValues fun _ c =>
      if c.address = sender.address then sendResponse response c else c

/-- `ResponseCallback` of an asynchronous text callback: the connection is held weakly. -/
def reply (serial : ℕ) (message : Bytes) (connections : Connections) : Connections :=
  if message = [] then connections
  else connections.mapValues fun _ c => if c.serial = serial then c.sendText message else c

namespace MessageHandler
variable {α : Type}

def finishMessage (h : MessageHandler α) (response : Response) (format : Format)
    (sender : Connection) (connections : Connections) (app : α)
    (invoked : Option Invocation) : Handled α where
  handler := { h with buffer := [] }
  connections := sendResponseToRecipient
    (if response.format = .unspecified then { response with format := format } else response)
    sender connections
  app := app
  invoked := invoked

/-- The moved-from buffer of the asynchronous path is empty, as the library's move
constructor leaves it: that path returns before the buffer is cleared. -/
def handleMessage (h : MessageHandler α) (sender : Connection) (f : Fragment)
    (connections : Connections) (app : α) : Handled α :=
  let h := { h with buffer := h.buffer ++ f.data }
  if f.currentMessageHasMore then ⟨h, connections, app, none⟩
  else
    let request : Request := ⟨h.buffer, sender.address⟩
    let format := f.getCurrentMessageFormat
    if format = .text then
      match h.callbackText, h.callbackTextAsync with
      | some callback, _ =>
        let (response, app) := callback request app
        h.finishMessage response format sender connections app (some ⟨.text, request⟩)
      | none, some callback =>
        let (replies, app) := callback request app
        ⟨{ h with buffer := [] },
          replies.foldl (fun cs message => reply sender.serial message cs) connections,
          app, some ⟨.textAsync, request⟩⟩
      | none, none => h.finishMessage {} format sender connections app none
    else
      match h.callbackBinary with
      | some callback =>
        let (response, app) := callback request app
        h.finishMessage response format sender connections app (some ⟨.binary, request⟩)
      | none => h.finishMessage {} format sender connections app none

def notifyConnection (callback : Option (ConnectionCallback α)) (connection : Connection)
    (connections : Connections) (app : α) : Connections × α :=
  match callback with
  | none => (connections, app)
  | some callback =>
    let (responses, app) := callback connection.address app
    (responses.foldl (fun cs r => sendResponseToRecipient r connection cs) connections, app)

def handleOpenConnection (h : MessageHandler α) := notifyConnection h.callbackOpen

def handleCloseConnection (h : MessageHandler α) := notifyConnection h.callbackClose

/-- The callback that takes complete messages of a format, if there is one. -/
def callbackFor (h : MessageHandler α) (isBinary : Bool) : Option Callback :=
  if isBinary then h.callbackBinary.map fun _ => .binary
  else if h.callbackText.isSome then some .text
  else h.callbackTextAsync.map fun _ => .textAsync

theorem handleMessage_more (h : MessageHandler α) (sender : Connection) (f : Fragment)
    (connections : Connections) (app : α) (hf : f.hasMore = true) :
    h.handleMessage sender f connections app =
      ⟨{ h with buffer := h.buffer ++ f.data }, connections, app, none⟩ := by
  simp only [handleMessage, Fragment.currentMessageHasMore, hf, if_true]

theorem handleMessage_last (h : MessageHandler α) (sender : Connection) (f : Fragment)
    (connections : Connections) (app : α) (hf : f.hasMore = false) :
    (h.handleMessage sender f connections app).handler = { h with buffer := [] } ∧
    (h.handleMessage sender f connections app).invoked =
      (h.callbackFor f.isBinary).map (⟨·, ⟨h.buffer ++ f.data, sender.address⟩⟩) := by
  obtain ⟨data, hasMore, isBinary⟩ := f
  obtain rfl : hasMore = false := hf
  cases isBinary with
  | true =>
    cases hb : h.callbackBinary <;>
      simp [handleMessage, Fragment.currentMessageHasMore, Fragment.getCurrentMessageFormat,
        finishMessage, callbackFor, hb]
  | false =>
    cases ht : h.callbackText <;> cases ha : h.callbackTextAsync <;>
      simp [handleMessage, Fragment.currentMessageHasMore, Fragment.getCurrentMessageFormat,
        finishMessage, callbackFor, ht, ha]

end MessageHandler

/-! Sending never changes which connections there are nor where they live. -/

@[simp] theorem address_sendResponse (r : Response) (c : Connection) :
    (sendResponse r c).address = c.address := by
  unfold sendResponse
  split <;> rfl

/-- The addresses of the open connections, by their `lws` pointer. -/
def addressOf (connections : Connections) (wsi : ℕ) : Option ℕ :=
  (connections.find? wsi).map Connection.address

theorem addressOf_mapValues (connections : Connections) (f : ℕ → Connection → Connection)
    (hf : ∀ w c, (f w c).address = c.address) (wsi : ℕ) :
    addressOf (connections.mapValues f) wsi = addressOf connections wsi := by
  simp only [addressOf, OrderedMap.find?_mapValues, Option.map_map]
  congr 1
  funext c
  exact hf wsi c

@[simp] theorem addressOf_sendResponseToRecipient (r : Response) (sender : Connection)
    (connections : Connections) (wsi : ℕ) :
    addressOf (sendResponseToRecipient r sender connections) wsi = addressOf connections wsi := by
  unfold sendResponseToRecipient
  split_ifs
  · rfl
  · cases r.recipient <;> refine addressOf_mapValues _ _ (fun w c => ?_) _
    · split_ifs <;> simp only [address_sendResponse]
    · split_ifs <;> simp only [address_sendResponse]
    · exact address_sendResponse r c

@[simp] theorem addressOf_reply (serial : ℕ) (m : Bytes) (connections : Connections) (wsi : ℕ) :
    addressOf (reply serial m connections) wsi = addressOf connections wsi := by
  unfold reply
  split_ifs
  · rfl
  · refine addressOf_mapValues _ _ (fun w c => ?_) _
    split_ifs <;> simp only [Connection.address_sendText]

/-- A chain of such changes is one too. -/
theorem addressOf_foldl {β : Type} (f : Connections → β → Connections) (xs : List β)
    (connections : Connections) (wsi : ℕ)
    (hf : ∀ cs x, addressOf (f cs x) wsi = addressOf cs wsi) :
    addressOf (xs.foldl f connections) wsi = addressOf connections wsi := by
  induction xs generalizing connections with
  | nil => rfl
  | cons x xs ih => exact (ih _).trans (hf _ _)

namespace MessageHandler
variable {α : Type}

theorem addressOf_handleMessage (h : MessageHandler α) (sender : Connection) (f : Fragment)
    (connections : Connections) (app : α) (wsi : ℕ) :
    addressOf (h.handleMessage sender f connections app).connections wsi =
      addressOf connections wsi := by
  unfold handleMessage
  dsimp only
  split_ifs
  · rfl
  · split
    · exact addressOf_sendResponseToRecipient _ _ _ _
    · exact addressOf_foldl _ _ _ _ fun cs m => addressOf_reply _ _ _ _
    · exact addressOf_sendResponseToRecipient _ _ _ _
  · split <;> exact addressOf_sendResponseToRecipient _ _ _ _

theorem addressOf_notifyConnection (callback : Option (ConnectionCallback α))
    (connection : Connection) (connections : Connections) (app : α) (wsi : ℕ) :
    addressOf (notifyConnection callback connection connections app).1 wsi =
      addressOf connections wsi := by
  cases callback with
  | none => rfl
  | some callback =>
    exact addressOf_foldl _ _ _ _ fun cs r => addressOf_sendResponseToRecipient _ _ _ _

end MessageHandler
end Rockets.Ws
