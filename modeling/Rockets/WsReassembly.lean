import Rockets.WsServer

set_option autoImplicit false

/-!
# Reassembly of fragmented messages

What the callbacks should be given: each complete message is the concatenation of
the fragments of one connection. The server's handler has a single buffer for all
its connections, so this holds of the runs in which no fragment arrives while bytes
of another connection's unfinished message, or of one that its closing abandoned,
are still in that buffer.
-/
namespace Rockets.Ws

/-- A message some fragments of which have arrived. -/
structure Unfinished where
  client : ℕ
  fragments : List Bytes := []
  deriving DecidableEq, Repr

/-- The events so far, as they concern messages; no byte of it is read off the server. -/
structure History where
  unfinished : OrderedMap ℕ Unfinished := ∅
  /-- Fragments whose connection closed before the message was complete, as long as no
  message of any connection has been completed since. -/
  abandoned : List Bytes := []
  text : Bool := false
  textAsync : Bool := false
  binary : Bool := false
  /-- The completed messages of a format that has a callback, oldest first. -/
  messages : List Invocation := []

namespace History
variable {α : Type}

def callbackFor (h : History) (isBinary : Bool) : Option Callback :=
  if isBinary then (if h.binary then some .binary else none)
  else if h.text then some .text
  else if h.textAsync then some .textAsync
  else none

def opened (h : History) (wsi address : ℕ) : History :=
  { h with unfinished := h.unfinished.set wsi { client := address } }

def fragmentsOf (h : History) (wsi : ℕ) : List Bytes :=
  ((h.unfinished.find? wsi).map Unfinished.fragments).getD []

def closed (h : History) (wsi : ℕ) : History :=
  { h with
    unfinished := h.unfinished.erase wsi
    abandoned := h.abandoned ++ h.fragmentsOf wsi }

def extended (h : History) (wsi : ℕ) (u : Unfinished) (f : Fragment) : History :=
  { h with unfinished := h.unfinished.set wsi { u with fragments := u.fragments ++ [f.data] } }

def complete (h : History) (wsi : ℕ) (u : Unfinished) (f : Fragment) : History :=
  { h with
    unfinished := h.unfinished.set wsi { u with fragments := [] }
    abandoned := []
    messages := h.messages ++ ((h.callbackFor f.isBinary).map
      (⟨·, ⟨(u.fragments ++ [f.data]).flatten, u.client⟩⟩)).toList }

def receive (h : History) (wsi : ℕ) (f : Fragment) : History :=
  match h.unfinished.find? wsi with
  | none => h
  | some u =>
    if f.hasMore then h.extended wsi u f else h.complete wsi u f

def record (h : History) : Server.Event α → History
  | .openConnection wsi address => h.opened wsi address
  | .closeConnection wsi => h.closed wsi
  | .receive wsi f => h.receive wsi f
  | .handleText callback => { h with text := callback.isSome }
  | .handleTextAsync callback => { h with textAsync := callback.isSome }
  | .handleBinary callback => { h with binary := callback.isSome }
  | _ => h

/-- The bytes of the unfinished message of a connection. -/
def pending (h : History) (wsi : ℕ) : Bytes := (h.fragmentsOf wsi).flatten

theorem pending_of_find? {h : History} {wsi : ℕ} {u : Unfinished}
    (hu : h.unfinished.find? wsi = some u) : h.pending wsi = u.fragments.flatten := by
  simp only [pending, fragmentsOf, hu, Option.map_some, Option.getD_some]

theorem pending_closed (h : History) (wsi w : ℕ) :
    (h.closed wsi).pending w = if w = wsi then [] else h.pending w := by
  simp only [closed, pending, fragmentsOf, OrderedMap.find?_erase]
  split_ifs <;> rfl

theorem pending_opened {h : History} {wsi : ℕ} (address w : ℕ)
    (hw : h.unfinished.find? wsi = none) : (h.opened wsi address).pending w = h.pending w := by
  simp only [opened, pending, fragmentsOf, OrderedMap.find?_set]
  split_ifs with he
  · simp only [he, hw, Option.map_some, Option.map_none, Option.getD_some, Option.getD_none]
  · rfl

theorem pending_extended {h : History} {wsi : ℕ} {u : Unfinished} (f : Fragment) (w : ℕ)
    (hu : h.unfinished.find? wsi = some u) :
    (h.extended wsi u f).pending w =
      if w = wsi then h.pending wsi ++ f.data else h.pending w := by
  simp only [extended, pending, fragmentsOf, OrderedMap.find?_set]
  split_ifs with hw
  · simp only [Option.map_some, Option.getD_some, hu, List.flatten_append,
      List.flatten_cons, List.flatten_nil, List.append_nil]
  · rfl

theorem pending_complete (h : History) (wsi : ℕ) (u : Unfinished) (f : Fragment) (w : ℕ) :
    (h.complete wsi u f).pending w = if w = wsi then [] else h.pending w := by
  simp only [complete, pending, fragmentsOf, OrderedMap.find?_set]
  split_ifs <;> rfl

theorem pending_congr {h k : History} {wsi : ℕ}
    (hk : (k.unfinished.find? wsi).map Unfinished.fragments =
      (h.unfinished.find? wsi).map Unfinished.fragments) : k.pending wsi = h.pending wsi := by
  simp only [pending, fragmentsOf, hk]

end History

variable {α : Type}

/-- No byte that another connection left unfinished is around when a fragment that
matters arrives: only an empty fragment that does not end its message is harmless. -/
def Exclusive (s : Server α × History) : Server.Event α → Prop
  | .receive wsi f => (f.hasMore = true ∧ f.data = []) ∨
      (s.2.abandoned.flatten = [] ∧
        ∀ e ∈ s.2.unfinished.entries, e.1 ≠ wsi → e.2.fragments.flatten = [])
  | _ => True

instance (s : Server α × History) (e : Server.Event α) : Decidable (Exclusive s e) :=
  match e with
  | .receive _ _ => inferInstanceAs (Decidable (_ ∨ _))
  | .openConnection _ _ | .closeConnection _ | .writeable _ _ | .serviceThread | .reply _ _
  | .broadcastText _ | .broadcastTextFiltered _ _ | .sendText _ _ | .broadcastBinary _
  | .handleOpen _ | .handleClose _ | .handleText _ | .handleTextAsync _
  | .handleBinary _ => isTrue trivial

theorem exclusive_pending {s : Server α × History} {wsi w : ℕ}
    (h : ∀ e ∈ s.2.unfinished.entries, e.1 ≠ wsi → e.2.fragments.flatten = []) (hw : w ≠ wsi) :
    s.2.pending w = [] := by
  cases hu : s.2.unfinished.find? w with
  | none => simp only [History.pending, History.fragmentsOf, hu, Option.map_none,
      Option.getD_none, List.flatten_nil]
  | some u =>
    rw [History.pending_of_find? hu]
    exact h (w, u) (OrderedMap.find?_eq_some.mp hu) hw

/-- At most one connection has bytes in the buffer, and then nothing was abandoned. -/
inductive Buffered (buffer : Bytes) (h : History) : Prop where
  | abandoned (eq : buffer = h.abandoned.flatten) (none : ∀ w, h.pending w = [])
  | owned (wsi : ℕ) (eq : buffer = h.pending wsi) (none : h.abandoned.flatten = [])
      (others : ∀ w, w ≠ wsi → h.pending w = [])

/-- The history knows which callbacks are installed. -/
structure SameCallbacks (h : History) (m : MessageHandler α) : Prop where
  text : h.text = m.callbackText.isSome
  textAsync : h.textAsync = m.callbackTextAsync.isSome
  binary : h.binary = m.callbackBinary.isSome

theorem SameCallbacks.callbackFor {h : History} {m : MessageHandler α} (hc : SameCallbacks h m)
    (isBinary : Bool) : h.callbackFor isBinary = m.callbackFor isBinary := by
  obtain ⟨ht, ha, hb⟩ := hc
  unfold History.callbackFor MessageHandler.callbackFor
  rw [ht, ha, hb]
  cases m.callbackTextAsync <;> cases m.callbackBinary <;> rfl

/-- The server and the history of the same events. -/
structure Agrees (s : Server α) (h : History) : Prop where
  client : ∀ wsi, (h.unfinished.find? wsi).map Unfinished.client = addressOf s.wsConnections wsi
  callbacks : SameCallbacks h s.wsHandler
  invocations : s.invocations = h.messages
  buffered : Buffered s.wsHandler.buffer h

theorem Agrees.of_sameReception {s t : Server α} {h : History} (ha : Agrees s h)
    (hs : Server.SameReception s t) : Agrees t h where
  client wsi := (ha.client wsi).trans (hs.address wsi).symm
  callbacks := by rw [hs.handler]; exact ha.callbacks
  invocations := hs.invocations.trans ha.invocations
  buffered := by rw [hs.handler]; exact ha.buffered

/-- The buffer holds exactly the unfinished message of the connection that receives. -/
theorem Buffered.eq_pending {buffer : Bytes} {h : History} (hb : Buffered buffer h) {wsi : ℕ}
    (ha : h.abandoned.flatten = []) (ho : ∀ w, w ≠ wsi → h.pending w = []) :
    buffer = h.pending wsi := by
  cases hb with
  | abandoned eq none => rw [eq, ha, none wsi]
  | owned w eq none others =>
    by_cases hw : w = wsi
    · exact hw ▸ eq
    · rw [eq, ho w hw, others wsi (Ne.symm hw)]

/-- The bytes in the buffer have the same owner after a change that moves none. -/
theorem Buffered.congr {buffer : Bytes} {h k : History} (hb : Buffered buffer h)
    (ha : k.abandoned = h.abandoned) (hp : ∀ w, k.pending w = h.pending w) :
    Buffered buffer k := by
  cases hb with
  | abandoned eq none => exact .abandoned (ha ▸ eq) fun w => (hp w).trans (none w)
  | owned w eq none others =>
    exact .owned w (eq.trans (hp w).symm) (ha ▸ none) fun v hv => (hp v).trans (others v hv)

theorem agrees_open {s : Server α} {h : History} (ha : Agrees s h) {wsi address : ℕ}
    (hw : s.wsConnections.find? wsi = none) :
    Agrees (s.openWsConnection wsi address) (h.opened wsi address) := by
  obtain ⟨hh, hi, hc⟩ := s.openWsConnection_spec wsi address hw
  have hnone : h.unfinished.find? wsi = none := by
    have := ha.client wsi
    simpa only [addressOf, hw, Option.map_none, Option.map_eq_none_iff] using this
  refine ⟨fun w => ?_, by rw [hh]; exact ⟨ha.callbacks.1, ha.callbacks.2, ha.callbacks.3⟩, hi.trans ha.invocations, ?_⟩
  · rw [hc, History.opened, OrderedMap.find?_set]
    split_ifs
    · rfl
    · exact ha.client w
  · rw [hh]
    exact ha.buffered.congr rfl fun w => History.pending_opened address w hnone

theorem Buffered.closed {buffer : Bytes} {h : History} (hb : Buffered buffer h) (wsi : ℕ) :
    Buffered buffer (h.closed wsi) := by
  have hab : (h.closed wsi).abandoned.flatten = h.abandoned.flatten ++ h.pending wsi :=
    List.flatten_append
  cases hb with
  | abandoned eq none =>
    refine .abandoned (by rw [hab, none, List.append_nil, eq]) fun w => ?_
    rw [History.pending_closed, none, ite_self]
  | owned w eq none others =>
    by_cases hw : w = wsi
    · subst hw
      refine .abandoned (by rw [hab, none, List.nil_append, eq]) fun v => ?_
      rw [History.pending_closed]
      split_ifs with hv
      · rfl
      · exact others v hv
    · refine .owned w ?_ ?_ fun v hv => ?_
      · rw [History.pending_closed, if_neg hw, eq]
      · rw [hab, none, others wsi (Ne.symm hw), List.append_nil]
      · rw [History.pending_closed, others v hv, ite_self]

theorem agrees_close {s : Server α} {h : History} (ha : Agrees s h) (wsi : ℕ) :
    Agrees (s.closeWsConnection wsi) (h.closed wsi) := by
  obtain ⟨hh, hi, hc⟩ := s.closeWsConnection_spec wsi
  refine ⟨fun w => ?_, by rw [hh]; exact ⟨ha.callbacks.1, ha.callbacks.2, ha.callbacks.3⟩, hi.trans ha.invocations, ?_⟩
  · rw [hc, History.closed, OrderedMap.find?_erase]
    split_ifs
    · rfl
    · exact ha.client w
  · rw [hh]
    exact ha.buffered.closed wsi

theorem agrees_more {s : Server α} {h : History} (ha : Agrees s h) {wsi : ℕ} {u : Unfinished}
    {f : Fragment} (hu : h.unfinished.find? wsi = some u)
    (haddr : addressOf s.wsConnections wsi = some u.client) (hm : f.hasMore = true)
    (hg : Exclusive (s, h) (.receive wsi f)) :
    Agrees (s.handleReceive wsi f) (h.extended wsi u f) := by
  obtain ⟨hc, hmore, -⟩ := s.handleReceive_spec wsi u.client f haddr
  obtain ⟨hh, hi⟩ := hmore hm
  refine ⟨fun w => ?_, ?_, hi.trans ha.invocations, ?_⟩
  · rw [hc, ← ha.client w, History.extended, OrderedMap.find?_set]
    split_ifs with hw
    · simp only [hw, hu, Option.map_some]
    · rfl
  · rw [hh]
    exact ⟨ha.callbacks.1, ha.callbacks.2, ha.callbacks.3⟩
  · rw [hh]
    rcases hg with ⟨-, hd⟩ | ⟨hab, ho⟩
    · simp only [hd, List.append_nil]
      refine ha.buffered.congr rfl fun w => ?_
      rw [History.pending_extended f w hu, hd, List.append_nil]
      split_ifs with hw
      · rw [hw]
      · rfl
    · have hothers : ∀ w, w ≠ wsi → h.pending w = [] := fun w => exclusive_pending (s := (s, h)) ho
      have hbuf := ha.buffered.eq_pending hab hothers
      refine .owned wsi ?_ hab fun w hw => ?_
      · rw [History.pending_extended f wsi hu, if_pos rfl, hbuf]
      · rw [History.pending_extended f w hu, if_neg hw, hothers w hw]

/-- The last fragment: the whole message, and nothing else, goes to the callback. -/
theorem agrees_last {s : Server α} {h : History} (ha : Agrees s h) {wsi : ℕ} {u : Unfinished}
    {f : Fragment} (hu : h.unfinished.find? wsi = some u)
    (haddr : addressOf s.wsConnections wsi = some u.client) (hm : f.hasMore = false)
    (hg : Exclusive (s, h) (.receive wsi f)) :
    Agrees (s.handleReceive wsi f) (h.complete wsi u f) := by
  obtain ⟨hc, -, hlast⟩ := s.handleReceive_spec wsi u.client f haddr
  obtain ⟨hh, hi⟩ := hlast hm
  obtain ⟨hab, ho⟩ := hg.resolve_left fun hh => by simp [hm] at hh
  have hothers : ∀ w, w ≠ wsi → h.pending w = [] := fun w => exclusive_pending (s := (s, h)) ho
  have hbuf : s.wsHandler.buffer = u.fragments.flatten :=
    (ha.buffered.eq_pending hab hothers).trans (History.pending_of_find? hu)
  refine ⟨fun w => ?_, ?_, ?_, ?_⟩
  · rw [hc, ← ha.client w, History.complete, OrderedMap.find?_set]
    split_ifs with hw
    · simp only [hw, hu, Option.map_some]
    · rfl
  · rw [hh]
    exact ⟨ha.callbacks.1, ha.callbacks.2, ha.callbacks.3⟩
  · rw [hi, ha.invocations, ← ha.callbacks.callbackFor, hbuf]
    simp only [History.complete, List.flatten_append, List.flatten_cons, List.flatten_nil,
      List.append_nil]
  · rw [hh]
    refine .abandoned rfl fun w => ?_
    rw [History.pending_complete]
    split_ifs with hw
    · rfl
    · exact hothers w hw

theorem agrees_receive {s : Server α} {h : History} (ha : Agrees s h) {wsi : ℕ} {f : Fragment}
    (he : s.Enabled (.receive wsi f)) (hg : Exclusive (s, h) (.receive wsi f)) :
    Agrees (s.handleReceive wsi f) (h.receive wsi f) := by
  obtain ⟨connection, hconn⟩ := Option.isSome_iff_exists.mp he
  have haddr : addressOf s.wsConnections wsi = some connection.address := by
    rw [addressOf, hconn, Option.map_some]
  obtain ⟨u, hu, hclient⟩ := Option.map_eq_some_iff.mp ((ha.client wsi).trans haddr)
  rw [← hclient] at haddr
  simp only [History.receive, hu]
  split_ifs with hm
  · exact agrees_more ha hu haddr hm hg
  · exact agrees_last ha hu haddr (by simpa using hm) hg

theorem agrees_callbacks {s t : Server α} {h k : History} (ha : Agrees s h)
    (hu : k.unfinished = h.unfinished) (hab : k.abandoned = h.abandoned)
    (hm : k.messages = h.messages) (hc : t.wsConnections = s.wsConnections)
    (hb : t.wsHandler.buffer = s.wsHandler.buffer) (hi : t.invocations = s.invocations)
    (hcb : SameCallbacks k t.wsHandler) : Agrees t k where
  client w := by rw [hu, hc]; exact ha.client w
  callbacks := hcb
  invocations := by rw [hi, hm, ha.invocations]
  buffered := hb ▸ ha.buffered.congr hab fun w => History.pending_congr (by rw [hu])

theorem agrees_step {s : Server α} {h : History} (ha : Agrees s h) {e : Server.Event α}
    (he : s.Enabled e) (hg : Exclusive (s, h) e) : Agrees (s.next e) (h.record e) := by
  obtain ⟨ht, hta, hb⟩ := ha.callbacks
  cases e with
  | openConnection wsi address => exact agrees_open ha he.1
  | closeConnection wsi => exact agrees_close ha wsi
  | receive wsi f => exact agrees_receive ha he hg
  | writeable wsi accepts => exact ha.of_sameReception (s.sameReception_handleWrite wsi accepts)
  | serviceThread => exact ha.of_sameReception s.sameReception_handleBroadcastRequest
  | reply serial message => exact ha.of_sameReception (s.sameReception_reply serial message)
  | broadcastText message =>
    exact ha.of_sameReception (s.sameReception_enqueueOn _ _ fun _ => rfl)
  | broadcastTextFiltered message filter =>
    exact ha.of_sameReception (s.sameReception_enqueueOn _ _ fun _ => rfl)
  | sendText message client =>
    exact ha.of_sameReception (s.sameReception_enqueueOn _ _ fun _ => rfl)
  | broadcastBinary data =>
    exact ha.of_sameReception (s.sameReception_enqueueOn _ _ fun _ => rfl)
  | handleOpen callback | handleClose callback =>
    exact agrees_callbacks ha rfl rfl rfl rfl rfl rfl ⟨ht, hta, hb⟩
  | handleText callback => exact agrees_callbacks ha rfl rfl rfl rfl rfl rfl ⟨rfl, hta, hb⟩
  | handleTextAsync callback => exact agrees_callbacks ha rfl rfl rfl rfl rfl rfl ⟨ht, rfl, hb⟩
  | handleBinary callback => exact agrees_callbacks ha rfl rfl rfl rfl rfl rfl ⟨ht, hta, rfl⟩

/-- The server beside the history of its events. -/
abbrev observedServer (app : α) (serviceThreadPool : Bool) :
    Machine (Server α × History) (Server.Event α) :=
  (Server.machine app serviceThreadPool).observed {} History.record

instance (app : α) (pool : Bool) (s : Server α × History) (e : Server.Event α) :
    Decidable ((observedServer app pool).Enabled s e) := inferInstanceAs (Decidable (s.1.Enabled e))

/-- Under the guard the callbacks are given exactly the completed messages, each once, in
order, with the client they came from. -/
theorem callbacks_receive_own_messages {app : α} {serviceThreadPool : Bool}
    {es : List (Server.Event α)} {s : Server α × History}
    (h : (observedServer app serviceThreadPool).Guarded Exclusive es s) :
    s.1.invocations = s.2.messages := by
  have hinit : Agrees ({ app := app, serviceThreadPool := serviceThreadPool } : Server α) {} :=
    ⟨fun _ => rfl, ⟨rfl, rfl, rfl⟩, rfl, .abandoned rfl fun _ => rfl⟩
  have hagrees : Agrees s.1 s.2 :=
    h.invariant (I := fun s => Agrees s.1 s.2) hinit fun v _ ha he hg =>
      agrees_step (s := v.1) (h := v.2) ha he hg
  exact hagrees.invocations

/-- Two clients whose messages do not overlap. -/
def successiveMessages : List (Server.Event Unit) :=
  [.handleText (some fun _ a => ({}, a)), .openConnection 1 10, .openConnection 2 20,
    .receive 1 ⟨ascii "he", true, false⟩, .receive 1 ⟨ascii "llo", false, false⟩,
    .receive 2 ⟨ascii "bye", false, false⟩]

theorem successiveMessages_received :
    ∃ s, (observedServer () false).Guarded Exclusive successiveMessages s ∧
      s.1.invocations = s.2.messages ∧
      s.1.invocations = [⟨.text, ⟨ascii "hello", 10⟩⟩, ⟨.text, ⟨ascii "bye", 20⟩⟩] := by
  have hrun := Machine.Path.of_isSome (M := observedServer () false) (G := Exclusive)
    (observedServer () false).init successiveMessages (by decide)
  exact ⟨_, hrun, callbacks_receive_own_messages hrun, by decide⟩

/-- A message that arrives between two fragments of another client's message. -/
def overlappingMessages : List (Server.Event Unit) :=
  [.handleText (some fun _ a => ({}, a)), .openConnection 1 10, .openConnection 2 20,
    .receive 1 ⟨ascii "he", true, false⟩, .receive 2 ⟨ascii "bye", false, false⟩]

theorem overlappingMessages_mixed :
    ¬ ∀ es s, (observedServer () false).Run es s → s.1.invocations = s.2.messages := by
  intro hall
  have hrun := Machine.Path.of_isSome (M := observedServer () false) (G := fun _ _ => True)
    (observedServer () false).init overlappingMessages (by decide)
  exact absurd (hall _ _ hrun) (by decide)

end Rockets.Ws
