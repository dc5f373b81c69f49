import Rockets.Machine

set_option autoImplicit false

/-!
# Cancellable requests on several threads

The table of pending requests behind its mutex, in steps as small as the code takes them:
`process` inserts an entry, calls the action and stores the cancel function it returns; a
response callback tries to lock, erases the entry and responds; `processCancel` holds the
lock while it finds the entry, calls its cancel function and erases it.
-/
namespace Rockets.JsonRpc.Cancellable
open Function (update)

/-- Who does what to whom in a run: requests `ρ` with their ids (nothing is the null id of
a notification), invocations `ι` of the response callbacks, cancel notifications `θ`, and
invocations `δ` of the callbacks that these give to a cancel function. -/
structure Traffic (κ ρ ι θ δ : Type) where
  id : ρ → Option κ
  client : ρ → ℕ
  target : ι → ρ
  victim : θ → Option κ
  sender : θ → ℕ
  cause : δ → θ

inductive CancelFunc (ρ : Type) where
  | temporary
  | action (r : ρ)
  deriving DecidableEq

/-- The second component is the respond callback of a request, or empty. -/
structure Entry (ρ : Type) where
  first : CancelFunc ρ
  second : Option ρ
  deriving DecidableEq

/-- The scopes in which the mutex is held. -/
inductive Holder (ρ ι θ : Type) where
  | insert (r : ρ)
  | store (r : ρ)
  | skip (j : ι)
  | cancel (k : θ)
  deriving DecidableEq

inductive ProcessPhase where
  | idle
  | inserting
  | inserted
  | called
  | returned
  | storing
  | finished
  deriving DecidableEq

inductive CompletionPhase where
  | idle
  | locked
  | erased
  | responded
  | skipped
  deriving DecidableEq

inductive CancelPhase (ρ : Type) where
  | idle
  | locked
  | missed
  | found (e : Entry ρ)
  | called (e : Entry ρ)
  | unwound (e : Entry ρ)
  | erased (e : Entry ρ)
  deriving DecidableEq

/-- The entry that the cancel notification has found in the table. -/
def CancelPhase.lookup? {ρ : Type} : CancelPhase ρ → Option (Entry ρ)
  | found e | called e | unwound e | erased e => some e
  | _ => none

def CancelPhase.isFound {ρ : Type} : CancelPhase ρ → Bool
  | found _ => true
  | _ => false

/-- The application has been given the `done` callback. -/
def CancelPhase.isCancelling {ρ : Type} [DecidableEq ρ] : CancelPhase ρ → Bool
  | called e | erased e => e.first ≠ .temporary
  | _ => false

/-- Calling an empty respond callback throws. -/
def CancelPhase.isThrowing {ρ : Type} : CancelPhase ρ → Bool
  | called e => e.second.isNone
  | _ => false

/-- Any cancel function but the temporary one may return without calling `done`. -/
def CancelPhase.isReturning {ρ : Type} [DecidableEq ρ] : CancelPhase ρ → Bool
  | called e => e.first ≠ .temporary || e.second.isSome
  | _ => false

def CancelPhase.isErased {ρ : Type} : CancelPhase ρ → Bool
  | erased _ => true
  | _ => false

inductive Reply (ι θ : Type) where
  | result (j : ι)
  | aborted (k : θ)
  deriving DecidableEq

structure State (κ ρ ι θ δ : Type) where
  mutex : Option (Holder ρ ι θ)
  requests : Option κ → Option (Entry ρ)
  process : ρ → ProcessPhase
  completion : ι → CompletionPhase
  cancel : θ → CancelPhase ρ
  fired : δ → Bool
  answered : ρ → List (Reply ι θ)

inductive Event (ρ ι θ δ : Type) where
  | lockInsert (r : ρ)
  | unlockInsert (r : ρ)
  | callAction (r : ρ)
  | returnAction (r : ρ) (cancelFunc : Bool)
  | lockStore (r : ρ)
  | unlockStore (r : ρ)
  | tryLock (j : ι)
  | erase (j : ι)
  | respond (j : ι)
  | lockCancel (k : θ)
  | find (k : θ)
  | callCancel (k : θ)
  | done (d : δ)
  | unwind (k : θ)
  | eraseCancel (k : θ)

namespace State
variable {κ ρ ι θ δ : Type} [DecidableEq κ] [DecidableEq ρ] [DecidableEq ι] [DecidableEq θ]
  [DecidableEq δ] (s : State κ ρ ι θ δ)

def initial : State κ ρ ι θ δ where
  mutex := none
  requests _ := none
  process _ := .idle
  completion _ := .idle
  cancel _ := .idle
  fired _ := false
  answered _ := []

/-- The request whose respond callback a cancel notification got hold of. -/
def captured (k : θ) : Option ρ := (s.cancel k).lookup?.bind Entry.second

/-- The action of a request has been called, so its response callback may be invoked. -/
def isCalled (r : ρ) : Bool :=
  match s.process r with
  | .called | .returned | .storing | .finished => true
  | _ => false

/-- A respond callback from the table; an empty one throws. -/
def answerTo (r : Option ρ) (reply : Reply ι θ) : ρ → List (Reply ι θ) :=
  match r with
  | none => s.answered
  | some r => update s.answered r (s.answered r ++ [reply])

end State

namespace Traffic
variable {κ ρ ι θ δ : Type} [DecidableEq κ] [DecidableEq ρ] [DecidableEq ι] [DecidableEq θ]
  [DecidableEq δ] (T : Traffic κ ρ ι θ δ)

def Enabled (s : State κ ρ ι θ δ) : Event ρ ι θ δ → Prop
  | .lockInsert r => s.mutex = none ∧ s.process r = .idle
  | .unlockInsert r => s.process r = .inserting
  | .callAction r => s.process r = .inserted
  | .returnAction r _ => s.process r = .called
  | .lockStore r => s.mutex = none ∧ s.process r = .returned
  | .unlockStore r => s.process r = .storing
  | .tryLock j => s.completion j = .idle ∧ s.isCalled (T.target j) = true
  | .erase j => s.completion j = .locked
  | .respond j => s.completion j = .erased
  | .lockCancel k => s.mutex = none ∧ s.cancel k = .idle
  | .find k => s.cancel k = .locked
  | .callCancel k => (s.cancel k).isFound = true
  | .done d => s.fired d = false ∧ (s.cancel (T.cause d)).isCancelling = true
  | .unwind k => (s.cancel k).isThrowing = true
  | .eraseCancel k => (s.cancel k).isReturning = true

def next (s : State κ ρ ι θ δ) : Event ρ ι θ δ → State κ ρ ι θ δ
  | .lockInsert r =>
    { s with
      mutex := some (.insert r)
      requests := update s.requests (T.id r) (some { first := .temporary, second := some r })
      process := update s.process r .inserting }
  | .unlockInsert r => { s with mutex := none, process := update s.process r .inserted }
  | .callAction r => { s with process := update s.process r .called }
  | .returnAction r cancelFunc =>
    { s with process := update s.process r (if cancelFunc then .returned else .finished) }
  | .lockStore r =>
    { s with
      mutex := some (.store r)
      requests := update s.requests (T.id r)
        (some { first := .action r, second := (s.requests (T.id r)).bind Entry.second })
      process := update s.process r .storing }
  | .unlockStore r => { s with mutex := none, process := update s.process r .finished }
  | .tryLock j =>
    if s.mutex = none then
      { s with mutex := some (.skip j), completion := update s.completion j .locked }
    else { s with completion := update s.completion j .skipped }
  | .erase j =>
    if s.requests (T.id (T.target j)) = none then
      { s with mutex := none, completion := update s.completion j .skipped }
    else
      { s with
        mutex := none
        requests := update s.requests (T.id (T.target j)) none
        completion := update s.completion j .erased }
  | .respond j =>
    { s with
      answered := s.answerTo (some (T.target j)) (.result j)
      completion := update s.completion j .responded }
  | .lockCancel k =>
    { s with mutex := some (.cancel k), cancel := update s.cancel k .locked }
  | .find k => match s.requests (T.victim k) with
    | none => { s with mutex := none, cancel := update s.cancel k .missed }
    | some e => { s with cancel := update s.cancel k (.found e) }
  | .callCancel k => match s.cancel k with
    | .found e =>
      { s with
        answered := if e.first = .temporary then s.answerTo e.second (.aborted k) else s.answered
        cancel := update s.cancel k (.called e) }
    | _ => s
  | .done d =>
    { s with
      answered := s.answerTo (s.captured (T.cause d)) (.aborted (T.cause d))
      fired := update s.fired d true }
  | .unwind k => match s.cancel k with
    | .called e => { s with mutex := none, cancel := update s.cancel k (.unwound e) }
    | _ => s
  | .eraseCancel k => match s.cancel k with
    | .called e =>
      { s with
        mutex := none
        requests := update s.requests (T.victim k) none
        cancel := update s.cancel k (.erased e) }
    | _ => s

def machine : Machine (State κ ρ ι θ δ) (Event ρ ι θ δ) where
  init := .initial
  Enabled := T.Enabled
  next := T.next

instance (s : State κ ρ ι θ δ) (e : Event ρ ι θ δ) : Decidable (T.Enabled s e) :=
  match e with
  | .lockInsert _ | .lockStore _ | .tryLock _ | .lockCancel _ | .done _ =>
    inferInstanceAs (Decidable (_ ∧ _))
  | .unlockInsert _ | .callAction _ | .returnAction _ _ | .unlockStore _ | .erase _ | .respond _
  | .find _ | .callCancel _ | .unwind _ | .eraseCancel _ => inferInstanceAs (Decidable (_ = _))

instance (s : State κ ρ ι θ δ) (e : Event ρ ι θ δ) : Decidable (T.machine.Enabled s e) :=
  inferInstanceAs (Decidable (T.Enabled s e))

section Frames
variable (s : State κ ρ ι θ δ) (e : Event ρ ι θ δ)

/-! Which steps change which part of the state. -/

theorem process_next (r : ρ) : (T.next s e).process r = s.process r ∨ e = .lockInsert r ∨
    e = .unlockInsert r ∨ e = .callAction r ∨ e = .returnAction r true ∨ e = .returnAction r false ∨
    e = .lockStore r ∨ e = .unlockStore r := by
  cases e <;> simp only [next] <;> (try split) <;> grind [Function.update_apply]

theorem completion_next (j : ι) : (T.next s e).completion j = s.completion j ∨
    e = .tryLock j ∨ e = .erase j ∨ e = .respond j := by
  cases e <;> simp only [next] <;> (try split) <;> grind [Function.update_apply]

theorem cancel_next (k : θ) : (T.next s e).cancel k = s.cancel k ∨ e = .lockCancel k ∨
    e = .find k ∨ e = .callCancel k ∨ e = .unwind k ∨ e = .eraseCancel k := by
  cases e <;> simp only [next] <;> (try split) <;> grind [Function.update_apply]

theorem requests_next (key : Option κ) : (T.next s e).requests key = s.requests key ∨
    (∃ r, (e = .lockInsert r ∨ e = .lockStore r) ∧ T.id r = key) ∨
    (T.next s e).requests key = none ∧ ((∃ j, e = .erase j ∧ T.id (T.target j) = key) ∨
      ∃ k, e = .eraseCancel k ∧ T.victim k = key) := by
  cases e <;> simp only [next] <;> (try split) <;> grind [Function.update_apply]

theorem fired_next (d : δ) : (T.next s e).fired d = s.fired d ∨
    e = .done d ∧ (T.next s e).fired d = true := by
  cases e <;> simp only [next] <;> (try split) <;> grind [Function.update_apply]

end Frames

end Traffic
end Rockets.JsonRpc.Cancellable
