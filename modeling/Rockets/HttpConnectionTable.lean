import Rockets.HttpChannel
import Rockets.HttpLifeCycle

set_option autoImplicit false

/-!
# The table of connections

`callback_http` for one `lws`, from the callback for the new request on, which puts the
connection into the table. If its constructor throws there is none, and what the later callbacks
are to do with it throws too.
-/
namespace Rockets.Http
open Connection ConnectionHandler

inductive Entry where
  | connected (exchange : Exchange)
  | absent (isCompleted isClosed : Bool) (stops : List Stop)

namespace Entry

section Model
variable (incoming : Incoming) (registry : Registry Future) (filter : Option Filter)

def start : Entry :=
  match construct incoming with
  | .ok connection =>
    .connected (({ connection } : Exchange).perform (handleNewRequest registry filter))
  | .error e => .absent false false [.logic e]

/-- Without a connection nobody requests a writable callback and there is no future. -/
def Enabled : Entry → Exchange.Event → Prop
  | .connected exchange, e => exchange.Enabled e
  | .absent isCompleted isClosed _, .body _ | .absent isCompleted isClosed _, .bodyCompletion =>
    isClosed = false ∧ isCompleted = false
  | .absent _ isClosed _, .close => isClosed = false
  | .absent _ _ _, .writeable _ | .absent _ _ _, .fulfil _ | .absent _ _ _, .abandon => False

def next : Entry → Exchange.Event → Entry
  | .connected exchange, e => .connected (exchange.next registry filter e)
  | .absent isCompleted isClosed stops, .body _ =>
    .absent isCompleted isClosed (stops ++ [.logic .noConnection])
  | .absent _ isClosed stops, .bodyCompletion =>
    .absent true isClosed (stops ++ [.logic .noConnection])
  | .absent isCompleted _ stops, .close => .absent isCompleted true stops
  | .absent isCompleted isClosed stops, .writeable _
  | .absent isCompleted isClosed stops, .fulfil _
  | .absent isCompleted isClosed stops, .abandon => .absent isCompleted isClosed stops

def machine : Machine Entry Exchange.Event where
  init := start incoming registry filter
  Enabled := Enabled
  next := next registry filter

/-- Without a connection only the exceptions are seen. -/
def Orderly : Entry → Prop
  | .connected exchange => exchange.Orderly incoming registry filter
  | .absent _ _ stops => ∀ e, .logic e ∉ stops

end Model

section Runs
variable {incoming : Incoming} {registry : Registry Future} {filter : Option Filter}
  {es : List Exchange.Event} {s : Entry}

theorem start_of_le (h : incoming.contentLength ≤ maxSize) :
    start incoming registry filter = .connected (Exchange.start incoming registry filter) := by
  simp only [start, construct, if_pos h]
  rfl

theorem start_of_lt (h : maxSize < incoming.contentLength) :
    start incoming registry filter = .absent false false [.logic .bodyTooLong] := by
  simp only [start, construct, if_neg (Nat.not_le.mpr h)]

theorem exchange_of_run (h : incoming.contentLength ≤ maxSize)
    (hrun : (machine incoming registry filter).Run es s) : ∃ exchange, s = .connected exchange ∧
      (Exchange.machine incoming registry filter).Run es exchange := by
  induction hrun with
  | nil => exact ⟨_, start_of_le h, .nil⟩
  | snoc _ he _ ih =>
    obtain ⟨exchange, rfl, hexchange⟩ := ih
    exact ⟨_, rfl, .snoc hexchange he trivial⟩

theorem stops_start (h : incoming.isServed filter = false) :
    .undefined ∈ (Exchange.start incoming registry filter).stops := by
  have hgen := (isServed_eq_false_iff registry).mp h
  obtain ⟨hm, -⟩ := method_of_undefined hgen
  have hm : incoming.method = none := hm
  have hcors : incoming.isCorsPreflightRequest = false := by
    simp [Incoming.isCorsPreflightRequest, hm]
  have hbody : incoming.canHaveHttpBody = false := by
    simp [Incoming.canHaveHttpBody, Http.canHaveHttpBody, hm]
  have hrun := Exchange.handleNewRequest_other registry filter hcors
  have hgen : generateResponse registry filter (Connection.new incoming).request =
      .ok .undefined := hgen
  rw [if_neg (by simp [hbody]), prepareResponse_unset registry filter rfl] at hrun
  simp only [hgen] at hrun
  simp [Exchange.start, Exchange.perform, hrun]

/-- Whatever comes in what order, the exchange is orderly at every moment, if and only if the
length of the body can be reserved and a method that the registry has no slot for is filtered. -/
theorem orderly_iff : (∀ es s, (machine incoming registry filter).Run es s →
    s.Orderly incoming registry filter) ↔
      incoming.contentLength ≤ maxSize ∧ incoming.isServed filter = true := by
  constructor
  · intro h
    have hstart := h [] _ .nil
    have hle : incoming.contentLength ≤ maxSize := by
      by_contra hlt
      change (start incoming registry filter).Orderly incoming registry filter at hstart
      rw [start_of_lt (Nat.not_le.mp hlt)] at hstart
      exact hstart .bodyTooLong List.mem_cons_self
    refine ⟨hle, ?_⟩
    by_contra hserved
    change (start incoming registry filter).Orderly incoming registry filter at hstart
    rw [start_of_le hle] at hstart
    exact hstart.defined (stops_start (by simpa using hserved))
  · rintro ⟨hle, hserved⟩ es s hrun
    obtain ⟨exchange, rfl, hexchange⟩ := exchange_of_run hle hrun
    exact Exchange.orderly_run hserved hexchange

def negativeLength : Incoming where
  method := some .get
  path := ascii "/objects"
  contentLength := Channel.readContentLength (ascii "-5")

def otherMethod : Incoming := { method := none, path := ascii "/objects" }

/-- The constructor throws for the one, and the lookup for the other is undefined. -/
theorem disorderly :
    (¬ ∀ es s, (machine negativeLength Exchange.uploadRegistry none).Run es s →
      s.Orderly negativeLength Exchange.uploadRegistry none) ∧
    ¬ ∀ es s, (machine otherMethod Exchange.uploadRegistry none).Run es s →
      s.Orderly otherMethod Exchange.uploadRegistry none := by
  refine ⟨fun h => ?_, fun h => ?_⟩
  · have hstart := h [] _ .nil
    have hlt : maxSize < negativeLength.contentLength := by decide
    change (start negativeLength Exchange.uploadRegistry none).Orderly _ _ _ at hstart
    rw [start_of_lt hlt] at hstart
    exact hstart .bodyTooLong List.mem_cons_self
  · have hstart := h [] _ .nil
    change (start otherMethod Exchange.uploadRegistry none).Orderly _ _ _ at hstart
    rw [start_of_le (Nat.zero_le _)] at hstart
    exact hstart.defined (stops_start rfl)

end Runs
end Entry
end Rockets.Http
