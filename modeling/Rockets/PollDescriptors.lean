import Rockets.Json

set_option autoImplicit false

/-!
# Poll descriptors and their listener

The table of open sockets that is kept for an external poll array, and the Qt processor that
is told of its changes while it is attached and keeps a table of notifiers. The callbacks the
notifiers are connected to are left out.
-/
namespace Rockets.Poll

abbrev SocketDescriptor := ℤ

def POLLIN (w : ℕ) : BitVec w := .twoPow w 0
def POLLOUT (w : ℕ) : BitVec w := .twoPow w 2

/-- `lws_pollargs`. -/
structure PollArgs where
  fd : SocketDescriptor
  events : BitVec 32
  prev_events : BitVec 32
  deriving DecidableEq, Repr

/-- `lws_pollfd`: the events are short integers. -/
structure PollFd where
  fd : SocketDescriptor
  events : BitVec 16
  revents : BitVec 16
  deriving DecidableEq, Repr

/-- What a listener is told. -/
inductive Notice where
  | onNewSocket (fd : SocketDescriptor) (events : BitVec 32)
  | onUpdateSocket (fd : SocketDescriptor) (events : BitVec 32)
  | onDeleteSocket (fd : SocketDescriptor)
  deriving DecidableEq, Repr

/-! ### The descriptors -/

structure PollDescriptors where
  pollDescriptors : OrderedMap SocketDescriptor PollFd := ∅
  listener : Bool := false

namespace PollDescriptors
variable (d : PollDescriptors)

/-- What the listener is told if there is one. -/
def notify (notices : List Notice) : List Notice := if d.listener then notices else []

def store (pa : PollArgs) : PollDescriptors :=
  let pollfd : PollFd := ⟨pa.fd, pa.events.truncate 16, pa.prev_events.truncate 16⟩
  { d with pollDescriptors := d.pollDescriptors.set pa.fd pollfd }

def add (pa : PollArgs) : PollDescriptors × List Notice :=
  if d.pollDescriptors.contains pa.fd then (d, [])
  else (d.store pa, d.notify [.onNewSocket pa.fd pa.events])

def update (pa : PollArgs) : PollDescriptors × List Notice :=
  if d.pollDescriptors.contains pa.fd then
    (d.store pa, d.notify [.onUpdateSocket pa.fd pa.events])
  else (d, [])

def remove (pa : PollArgs) : PollDescriptors × List Notice :=
  if d.pollDescriptors.contains pa.fd then
    ({ d with pollDescriptors := d.pollDescriptors.erase pa.fd },
      d.notify [.onDeleteSocket pa.fd])
  else (d, [])

def setListener (listener : Bool) : PollDescriptors × List Notice :=
  let d := { d with listener := listener }
  (d, d.notify (d.pollDescriptors.entries.map fun e =>
    .onNewSocket e.1 (e.2.events.signExtend 32)))

end PollDescriptors

/-! ### The processor -/

/-- `ReadWriteSocketNotifier`: both notifiers are enabled when they are made. -/
structure Notifier where
  read : Bool := true
  write : Bool := true
  deriving DecidableEq, Repr

def Notifier.enable (mode : BitVec 32) : Notifier where
  read := mode &&& POLLIN 32 ≠ 0
  write := mode &&& POLLOUT 32 ≠ 0

/-- What the processor is to have for a socket. -/
def PollFd.notifier (p : PollFd) : Notifier where
  read := p.events &&& POLLIN 16 ≠ 0
  write := p.events &&& POLLOUT 16 ≠ 0

abbrev Notifiers := OrderedMap SocketDescriptor Notifier

namespace SocketProcessor

def onNewSocket (notifiers : Notifiers) (fd : SocketDescriptor) (mode : BitVec 32) : Notifiers :=
  (notifiers.emplace fd {}).set fd (.enable mode)

def onUpdateSocket (notifiers : Notifiers) (fd : SocketDescriptor) (mode : BitVec 32) :
    Except Exn Notifiers :=
  if notifiers.contains fd then .ok (notifiers.set fd (.enable mode)) else .error .outOfRange

def onDeleteSocket (notifiers : Notifiers) (fd : SocketDescriptor) : Notifiers :=
  notifiers.erase fd

def receive (notifiers : Notifiers) : Notice → Except Exn Notifiers
  | .onNewSocket fd mode => .ok (onNewSocket notifiers fd mode)
  | .onUpdateSocket fd mode => onUpdateSocket notifiers fd mode
  | .onDeleteSocket fd => .ok (onDeleteSocket notifiers fd)

end SocketProcessor

/-! ### The two together -/

structure State where
  descriptors : PollDescriptors := {}
  notifiers : Notifiers := ∅
  /-- What the processor has thrown. -/
  thrown : List Exn := []

/-- What libwebsockets and the application ask for; the only listener is the processor. -/
inductive Op where
  | add (pa : PollArgs)
  | update (pa : PollArgs)
  | remove (pa : PollArgs)
  | setListener (listener : Bool)
  deriving DecidableEq, Repr

namespace State

def tell (s : State) (notice : Notice) : State :=
  match SocketProcessor.receive s.notifiers notice with
  | .ok notifiers => { s with notifiers := notifiers }
  | .error e => { s with thrown := s.thrown ++ [e] }

def apply (s : State) (r : PollDescriptors × List Notice) : State :=
  r.2.foldl tell { s with descriptors := r.1 }

def next (s : State) : Op → State
  | .add pa => s.apply (s.descriptors.add pa)
  | .update pa => s.apply (s.descriptors.update pa)
  | .remove pa => s.apply (s.descriptors.remove pa)
  | .setListener listener => s.apply (s.descriptors.setListener listener)

def run (ops : List Op) : State := ops.foldl next {}

def isAttached (s : State) : Bool := s.descriptors.listener

/-- While the processor is attached it has notifiers for the open descriptors and for no
others, each enabled for the events of the descriptor, and nothing was ever thrown. -/
structure Synced (s : State) : Prop where
  thrown : s.thrown = []
  notifiers : s.isAttached = true → ∀ fd, s.notifiers.find? fd =
    (s.descriptors.pollDescriptors.find? fd).map PollFd.notifier

/-- Every descriptor the processor still has a notifier for is open. -/
def KnowsOpen (s : State) : Prop :=
  ∀ fd, s.notifiers.contains fd = true → s.descriptors.pollDescriptors.contains fd = true

/-! ### What the events say -/

theorem and_twoPow_ne_zero {w i : ℕ} (x : BitVec w) (hi : i < w) :
    x &&& .twoPow w i ≠ 0 ↔ x.getLsbD i = true := by
  rw [BitVec.and_twoPow]
  split_ifs with h
  · refine iff_of_true (fun hzero => ?_) h
    have hbit := congrArg (·.getLsbD i) hzero
    simp [hi] at hbit
  · exact iff_of_false (fun hne => hne rfl) h

theorem enable_eq (mode : BitVec 32) :
    Notifier.enable mode = ⟨mode.getLsbD 0, mode.getLsbD 2⟩ := by
  simp only [Notifier.enable, POLLIN, POLLOUT]
  congr 1 <;> simp only [and_twoPow_ne_zero _ (by decide : 0 < 32),
    and_twoPow_ne_zero _ (by decide : 2 < 32), Bool.decide_eq_true]

theorem notifier_eq (p : PollFd) : p.notifier = ⟨p.events.getLsbD 0, p.events.getLsbD 2⟩ := by
  simp only [PollFd.notifier, POLLIN, POLLOUT]
  congr 1 <;> simp only [and_twoPow_ne_zero _ (by decide : 0 < 16),
    and_twoPow_ne_zero _ (by decide : 2 < 16), Bool.decide_eq_true]

/-- The events lose nothing that matters when they are stored. -/
theorem notifier_truncate (fd : SocketDescriptor) (events prev_events : BitVec 32) :
    PollFd.notifier ⟨fd, events.truncate 16, prev_events.truncate 16⟩ = Notifier.enable events := by
  rw [notifier_eq, enable_eq]
  simp

theorem enable_signExtend (p : PollFd) : Notifier.enable (p.events.signExtend 32) = p.notifier := by
  rw [notifier_eq, enable_eq]
  simp only [BitVec.getLsbD_signExtend]
  simp

/-! ### What each operation leaves -/

variable {s : State}

theorem Synced.of_detached (hthrown : s.thrown = []) (hdetached : s.isAttached = false) :
    Synced s :=
  ⟨hthrown, fun hattached => absurd hattached (by simp [hdetached])⟩

theorem Synced.apply (h : Synced s) {descriptors : PollDescriptors} {notices : List Notice}
    (hlistener : descriptors.listener = s.descriptors.listener)
    (hattached : s.isAttached = true →
      Synced (notices.foldl tell { s with descriptors := descriptors })) :
    Synced (s.apply (descriptors, s.descriptors.notify notices)) := by
  unfold State.apply PollDescriptors.notify
  split_ifs with hnow
  · exact hattached hnow
  · exact .of_detached h.thrown (hlistener.trans (Bool.not_eq_true _ ▸ hnow))

theorem Synced.contains_notifiers (h : Synced s) (hattached : s.isAttached = true)
    (fd : SocketDescriptor) :
    s.notifiers.contains fd = s.descriptors.pollDescriptors.contains fd := by
  simp only [OrderedMap.contains, h.notifiers hattached fd, Option.isSome_map]

theorem find?_onNewSocket (notifiers : Notifiers) (fd j : SocketDescriptor) (mode : BitVec 32) :
    (SocketProcessor.onNewSocket notifiers fd mode).find? j =
      if j = fd then some (.enable mode) else notifiers.find? j := by
  simp only [SocketProcessor.onNewSocket, OrderedMap.find?_set, OrderedMap.find?_emplace]
  split_ifs <;> rfl

theorem Synced.add (h : Synced s) (pa : PollArgs) : Synced (s.next (.add pa)) := by
  simp only [next, PollDescriptors.add]
  split_ifs with hknown
  · exact h
  · refine h.apply rfl fun hattached => ⟨h.thrown, fun _ fd => ?_⟩
    simp only [List.foldl_cons, List.foldl_nil, tell, SocketProcessor.receive,
      PollDescriptors.store, find?_onNewSocket, OrderedMap.find?_set]
    split_ifs
    · rw [Option.map_some, notifier_truncate]
    · exact h.notifiers hattached fd

theorem Synced.update (h : Synced s) (pa : PollArgs) : Synced (s.next (.update pa)) := by
  simp only [next, PollDescriptors.update]
  split_ifs with hknown
  · refine h.apply rfl fun hattached => ?_
    have hnotifier : s.notifiers.contains pa.fd = true :=
      (h.contains_notifiers hattached pa.fd).trans hknown
    simp only [List.foldl_cons, List.foldl_nil, tell, SocketProcessor.receive,
      SocketProcessor.onUpdateSocket, hnotifier, if_true]
    refine ⟨h.thrown, fun _ fd => ?_⟩
    simp only [PollDescriptors.store, OrderedMap.find?_set]
    split_ifs
    · rw [Option.map_some, notifier_truncate]
    · exact h.notifiers hattached fd
  · exact h

theorem Synced.remove (h : Synced s) (pa : PollArgs) : Synced (s.next (.remove pa)) := by
  simp only [next, PollDescriptors.remove]
  split_ifs with hknown
  · refine h.apply rfl fun hattached => ⟨h.thrown, fun _ fd => ?_⟩
    simp only [List.foldl_cons, List.foldl_nil, tell, SocketProcessor.receive,
      SocketProcessor.onDeleteSocket, OrderedMap.find?_erase]
    split_ifs
    · rfl
    · exact h.notifiers hattached fd
  · exact h

theorem Synced.detach (h : Synced s) : Synced (s.next (.setListener false)) :=
  .of_detached h.thrown rfl

/-! ### Attaching -/

/-- The descriptors that are open are replayed; what else the processor had, it keeps. -/
theorem replay (es : List (SocketDescriptor × PollFd)) (s : State) :
    let s' := (es.map fun e => Notice.onNewSocket e.1 (e.2.events.signExtend 32)).foldl tell s
    s'.descriptors = s.descriptors ∧ s'.thrown = s.thrown ∧ (Entries.Sorted es → ∀ fd,
      s'.notifiers.find? fd =
        ((Entries.find? fd es).map PollFd.notifier).or (s.notifiers.find? fd)) := by
  induction es generalizing s with
  | nil => exact ⟨rfl, rfl, fun _ fd => rfl⟩
  | cons e es ih =>
    obtain ⟨hdescriptors, hthrown, hnotifiers⟩ :=
      ih (s.tell (.onNewSocket e.1 (e.2.events.signExtend 32)))
    refine ⟨hdescriptors, hthrown, fun hsorted fd => ?_⟩
    obtain ⟨hfirst, hrest⟩ := List.pairwise_cons.mp hsorted
    refine (hnotifiers hrest fd).trans ?_
    simp only [tell, SocketProcessor.receive, find?_onNewSocket, enable_signExtend,
      Entries.find?, eq_comm (a := fd)]
    split_ifs with hfd
    · -- the keys are distinct, so no later entry is about the same descriptor
      have habsent : Entries.find? fd es = none :=
        Entries.find?_eq_none fun e' he' => fun hkey => (hfirst e' he').ne (hfd.trans hkey.symm)
      simp [habsent]
    · rfl

theorem find?_attach (s : State) (fd : SocketDescriptor) :
    (s.next (.setListener true)).notifiers.find? fd =
      ((s.descriptors.pollDescriptors.find? fd).map PollFd.notifier).or
        (s.notifiers.find? fd) :=
  (replay s.descriptors.pollDescriptors.entries _).2.2 s.descriptors.pollDescriptors.sorted fd

theorem descriptors_attach (s : State) :
    (s.next (.setListener true)).descriptors = { s.descriptors with listener := true } :=
  (replay s.descriptors.pollDescriptors.entries _).1

theorem thrown_attach (s : State) : (s.next (.setListener true)).thrown = s.thrown :=
  (replay s.descriptors.pollDescriptors.entries _).2.1

/-- Attaching puts the notifiers right unless one is left of a socket that has closed. -/
theorem synced_attach_iff (hthrown : s.thrown = []) :
    Synced (s.next (.setListener true)) ↔ KnowsOpen s := by
  have hmissing (fd : SocketDescriptor) : s.descriptors.pollDescriptors.contains fd = false ↔
      s.descriptors.pollDescriptors.find? fd = none := by
    simp [OrderedMap.contains]
  constructor
  · intro h fd hknown
    have hattached : (s.next (.setListener true)).isAttached = true := by
      rw [isAttached, descriptors_attach]
    by_contra hclosed
    have hnone := (hmissing fd).mp (Bool.not_eq_true _ ▸ hclosed)
    have hnow := h.notifiers hattached fd
    rw [find?_attach, descriptors_attach, hnone] at hnow
    simp only [Option.map_none, Option.none_or] at hnow
    simp [OrderedMap.contains, hnow] at hknown
  · intro hopen
    refine ⟨(thrown_attach s).trans hthrown, fun _ fd => ?_⟩
    rw [find?_attach, descriptors_attach]
    cases hfd : s.descriptors.pollDescriptors.find? fd with
    | some p => rfl
    | none =>
      cases hstale : s.notifiers.find? fd with
      | none => rfl
      | some n =>
        have hcontains := hopen fd (by simp [OrderedMap.contains, hstale])
        rw [(hmissing fd).mpr hfd] at hcontains
        exact absurd hcontains Bool.false_ne_true

/-! ### Over a run -/

theorem run_append_singleton (ops : List Op) (op : Op) :
    run (ops ++ [op]) = (run ops).next op := by
  simp [run, List.foldl_append]

theorem Synced.next (h : Synced s) (op : Op)
    (hattach : op = .setListener true → KnowsOpen s) : Synced (s.next op) := by
  match op with
  | .add pa => exact h.add pa
  | .update pa => exact h.update pa
  | .remove pa => exact h.remove pa
  | .setListener false => exact h.detach
  | .setListener true => exact (synced_attach_iff h.thrown).mpr (hattach rfl)

/-- The processor is in step with the table after every operation just when, each time it is
attached, it has no notifier left of a descriptor that is closed by then. -/
theorem synced_iff (ops : List Op) :
    (∀ ops', ops' <+: ops → Synced (run ops')) ↔
      ∀ ops', ops' ++ [.setListener true] <+: ops → KnowsOpen (run ops') := by
  constructor
  · intro h ops' hpre
    have hbefore := h ops' ((List.prefix_append _ _).trans hpre)
    have hafter := h _ hpre
    rw [run_append_singleton] at hafter
    exact (synced_attach_iff hbefore.thrown).mp hafter
  · intro h ops' hpre
    induction ops' using List.reverseRecOn with
    | nil => exact .of_detached rfl rfl
    | append_singleton ops' op ih =>
      have hbefore := ih ((List.prefix_append _ _).trans hpre)
      rw [run_append_singleton]
      refine hbefore.next op fun hop => ?_
      subst hop
      exact h ops' hpre

/-- A socket is closed while the processor is detached, which is attached again. -/
def reattached : List Op :=
  [.setListener true, .add ⟨7, 1, 1⟩, .setListener false, .remove ⟨7, 0, 1⟩, .setListener true]

/-- The notifier of the closed socket is still there. -/
theorem reattached_not_synced : ¬ Synced (run reattached) := by
  intro h
  have hnotifier := h.notifiers (by decide) 7
  exact absurd hnotifier (by decide)

end State
end Rockets.Poll
