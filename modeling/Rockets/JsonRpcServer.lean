import Rockets.JsonRpcRequesterHandles
import Rockets.WsMutex

set_option autoImplicit false

/-!
# The JSON-RPC server on a websocket server

What its actions may ask of it before they return ends up in the messaging operations of the
websocket server, in whose text callback the actions run.
-/
namespace Rockets.JsonRpc.Server
open Ws.Threads

/-- What a callback may ask for while it runs: an operation of the websocket server, a progress
notification of the request that its action was given, a notification. -/
inductive Call where
  | operation (op : Operation)
  | progress (requestID : Json) (clientID : ℕ) (msg : Bytes) (amount : ℕ)
  | notify (method : Bytes) (params : Text)

section Calls
variable (lib : JsonLib) (toBytes : Text → Bytes)

/-- `progressFunc`, whose `sendText` is that of the websocket server. -/
def progressFunc (requestID : Json) (clientID : ℕ) (msg : Bytes) (amount : ℕ) :
    Except Exn Operation := do
  let progress := Json.ofMembers [(ascii "id", requestID),
    (ascii "amount", .numberFloat amount), (ascii "operation", .string msg)]
  let params ← progress.dump
  let notification ← Requester.notify lib (ascii "progress") params
  let text ← notification.dump
  return .sendText (toBytes text) clientID

/-- `Notifier::notify`, whose `_send` broadcasts. -/
def notify (method : Bytes) (params : Text) : Except Exn Operation := do
  let notification ← Requester.notify lib method params
  let text ← notification.dump
  return .broadcastText (toBytes text)

def Call.perform : Call → Except Exn Operation
  | operation op => .ok op
  | progress requestID clientID msg amount =>
    progressFunc lib toBytes requestID clientID msg amount
  | .notify method params => Server.notify lib toBytes method params

/-- A call that throws does not get as far as the websocket server. -/
def performed (calls : List Call) : List Operation :=
  calls.filterMap fun call => (call.perform lib toBytes).toOption

end Calls

variable {lib : JsonLib} {toBytes : Text → Bytes}

theorem utf8_makeNotification {method : Bytes} {params : Option Json} (hmethod : utf8 method = true)
    (hparams : ∀ p ∈ params, p.utf8 = true) :
    (Requester.makeNotification method params).utf8 = true := by
  refine Json.utf8_ofMembers ?_
  cases params with
  | none => simp (disch := decide) [Json.utf8Members, Json.utf8, utf8_ascii, hmethod]
  | some p =>
    simp (disch := decide) [Json.utf8Members, Json.utf8, utf8_ascii, hmethod, hparams p rfl]

variable (lib toBytes) in
theorem progressFunc_ok {requestID : Json} {msg : Bytes} (hid : requestID.utf8 = true)
    (hmsg : utf8 msg = true) (clientID amount : ℕ) :
    ∃ text, progressFunc lib toBytes requestID clientID msg amount =
      .ok (.sendText text clientID) := by
  have hprogress : (Json.ofMembers [(ascii "id", requestID),
      (ascii "amount", .numberFloat amount), (ascii "operation", .string msg)]).utf8 = true := by
    refine Json.utf8_ofMembers ?_
    simp (disch := decide) [Json.utf8Members, Json.utf8, utf8_ascii, hid, hmsg]
  generalize hj : Json.ofMembers _ = progress at hprogress
  have hnotification : (Requester.makeNotification (ascii "progress")
      (some progress.reparsed)).utf8 = true := by
    refine utf8_makeNotification (utf8_ascii (by decide)) ?_
    rintro p ⟨⟩
    exact (Json.utf8_reparsed progress).trans hprogress
  have hnotify : Requester.notify lib (ascii "progress") (.dumped progress hprogress) =
      .ok (Requester.makeNotification (ascii "progress") (some progress.reparsed)) := rfl
  refine ⟨toBytes (.dumped _ hnotification), ?_⟩
  simp only [progressFunc, hj, Json.dump_ok hprogress, bind, Except.bind, hnotify,
    Json.dump_ok hnotification]
  rfl

variable (lib toBytes) in
theorem progressFunc_error (requestID : Json) {msg : Bytes} (hmsg : utf8 msg = false)
    (clientID amount : ℕ) :
    ∃ e, progressFunc lib toBytes requestID clientID msg amount = .error e := by
  have hprogress : (Json.ofMembers [(ascii "id", requestID),
      (ascii "amount", .numberFloat amount), (ascii "operation", .string msg)]).utf8 = false := by
    by_contra h
    have hoperation : utf8 msg = true := @Json.utf8_of_find? _ (.string msg) (ascii "operation")
      (Bool.not_eq_false _ ▸ h) rfl
    cases hmsg.symm.trans hoperation
  refine ⟨.typeError, ?_⟩
  simp only [progressFunc, Json.dump_error hprogress, bind, Except.bind]

section Completion
variable {n : ℕ} {π : Type} [DecidableEq π] {s : State n π} {t : Fin n}

variable (lib toBytes) in
/-- Callbacks complete just when none of their calls gets as far as the websocket server. -/
theorem callback_completes_iff {flags : Fin n → Bool} {es : List (Event n π)}
    (h : (machine flags).Run es s) {entry : Ws.Threads.Entry} {calls : List Call}
    (he : s.Enabled (.enter t entry (performed lib toBytes calls))) :
    s.Completes flags t entry (performed lib toBytes calls) ↔ performed lib toBytes calls = [] :=
  State.completes_iff h he

end Completion

def connected : List (Event 1 Unit) := [.enter 0 (.open 7 100) [], .leave 0]

abbrev connectedState : State 1 Unit :=
  connected.foldl (·.next ·) { broadcastRequested := fun _ => false }

theorem connected_run : (machine fun _ => false).Run connected connectedState :=
  .cons ⟨rfl, rfl, rfl, nofun⟩ trivial (.cons ⟨rfl, _, rfl⟩ trivial .nil)

theorem enabled_receive (ops : List Operation) :
    connectedState.Enabled (.enter 0 (.receive 7) ops) :=
  ⟨rfl, rfl, _, rfl, rfl⟩

def malformed : List Call :=
  [.progress (.numberUnsigned 1) 100 [0xE0] 0, .notify (ascii "hello") (.bytes [0xE0])]

theorem performed_malformed : performed (.ofTable []) (fun _ => []) malformed = [] := by
  have hmsg : utf8 [0xE0] = false := by decide
  obtain ⟨e, he⟩ := progressFunc_error (.ofTable []) (fun _ => []) (.numberUnsigned 1) hmsg 100 0
  have hnotify : Server.notify (.ofTable []) (fun _ => []) (ascii "hello") (.bytes [0xE0]) =
      .error (.parseError [0xE0]) := rfl
  simp only [performed, malformed, List.filterMap_cons, Call.perform, he, hnotify, Except.toOption]
  rfl

theorem callback_completes_iff_silent :
    connectedState.Completes (fun _ => false) 0 (.receive 7)
      (performed (.ofTable []) (fun _ => []) malformed) :=
  (callback_completes_iff _ _ connected_run (enabled_receive _)).mpr performed_malformed

def halfway : List Call := [.progress (.numberUnsigned 1) 100 (ascii "half way") 0x3FE0000000000000]

theorem halfway_never_completes :
    (machine fun _ => false).Run connected connectedState ∧
      connectedState.Enabled (.enter 0 (.receive 7)
        (performed (.ofTable []) (fun _ => []) halfway)) ∧
      ¬ connectedState.Completes (fun _ => false) 0 (.receive 7)
        (performed (.ofTable []) (fun _ => []) halfway) := by
  refine ⟨connected_run, enabled_receive _, fun hall => ?_⟩
  have hnil := (State.completes_iff connected_run (enabled_receive _)).mp hall
  have hid : (Json.numberUnsigned 1).utf8 = true := rfl
  have hmsg : utf8 (ascii "half way") = true := utf8_ascii (by decide)
  obtain ⟨text, hok⟩ := progressFunc_ok (.ofTable []) (fun _ => []) hid hmsg 100 0x3FE0000000000000
  simp [performed, halfway, Call.perform, hok, Except.toOption] at hnil

end Rockets.JsonRpc.Server
