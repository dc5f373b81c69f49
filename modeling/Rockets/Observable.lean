import Rockets.Machine

set_option autoImplicit false

/-!
# Observables

What an observer gets of a stream of values through a chain of operators. A chain may drop a
value, pass one on or fail, which ends the subscription; a limit ends it after so many values.
A hub is one stream with subscribers that come and go.
-/
namespace Rockets

abbrev Operator (ε α β : Type*) := α → Except ε (Option β)

namespace Operator
variable {ε φ α β γ : Type*}

def filter (p : α → Except ε Bool) : Operator ε α α := fun a =>
  (p a).map fun b => if b then some a else none

def map (f : α → Except ε β) : Operator ε α β := fun a => (f a).map some

def pipe (f : Operator ε α β) (g : Operator ε β γ) : Operator ε α γ := fun a =>
  match f a with
  | .ok none => .ok none
  | .ok (some b) => g b
  | .error e => .error e

/-- The stream that goes on with another error in place of the first. -/
def catchError (f : Operator ε α β) (handler : ε → φ) : Operator φ α β := fun a =>
  (f a).mapError handler

variable {p : α → Except ε Bool} {f : Operator ε α β} {g : Operator ε β γ} {a : α}

theorem filter_of_ok {b : Bool} (h : p a = .ok b) :
    filter p a = .ok (if b then some a else none) := by
  rw [filter, h]
  rfl

theorem map_of_ok {m : α → Except ε β} {b : β} (h : m a = .ok b) : map m a = .ok (some b) := by
  rw [map, h]
  rfl

theorem pipe_of_none (h : f a = .ok none) : pipe f g a = .ok none := by
  rw [pipe, h]

theorem pipe_of_some {b : β} (h : f a = .ok (some b)) : pipe f g a = g b := by
  rw [pipe, h]

theorem pipe_of_error {e : ε} (h : f a = .error e) : pipe f g a = .error e := by
  rw [pipe, h]

theorem pipe_filter_map_of_some {b : β} {q : β → Except ε Bool} {m : β → Except ε γ} {keep : Bool}
    {c : γ} (hf : f a = .ok (some b)) (hq : q b = .ok keep) (hm : keep = true → m b = .ok c) :
    ((f.pipe (filter q)).pipe (map m)) a = .ok (if keep then some c else none) := by
  have hfilter : (f.pipe (filter q)) a = .ok (if keep then some b else none) :=
    (pipe_of_some hf).trans (filter_of_ok hq)
  cases keep with
  | false => exact pipe_of_none hfilter
  | true => exact (pipe_of_some hfilter).trans (map_of_ok (hm rfl))

theorem pipe_filter_map_of_none (q : β → Except ε Bool) (m : β → Except ε γ)
    (hf : f a = .ok none) : ((f.pipe (filter q)).pipe (map m)) a = .ok none :=
  pipe_of_none (pipe_of_none hf)

end Operator

inductive Status (ε : Type*) where
  | active
  | completed
  | failed (e : ε)

def Status.isActive {ε : Type*} : Status ε → Bool
  | active => true
  | _ => false

def Status.isFailed {ε : Type*} : Status ε → Bool
  | failed _ => true
  | _ => false

structure Observer (ε β : Type*) where
  received : List β := []
  status : Status ε := .active

namespace Observer
variable {ε α β : Type*}

def emit (limit : Option ℕ) (o : Observer ε β) (b : β) : Observer ε β where
  received := o.received ++ [b]
  status := if limit = some (o.received.length + 1) then .completed else .active

/-- An observer behind a chain and a limit gets the next value of the stream. -/
def next (limit : Option ℕ) (f : Operator ε α β) (o : Observer ε β) (a : α) : Observer ε β :=
  match o.status with
  | .active =>
    match f a with
    | .ok none => o
    | .ok (some b) => o.emit limit b
    | .error e => { o with status := .failed e }
  | _ => o

/-- What is to be got of some values by a chain that never fails. -/
def expected (limit : Option ℕ) (g : α → Option β) (as : List α) : Observer ε β :=
  match limit with
  | none => { received := as.filterMap g }
  | some n =>
    { received := (as.filterMap g).take n
      status := if n ≤ (as.filterMap g).length then .completed else .active }

variable {limit : Option ℕ} {f : Operator ε α β} {g : α → Option β} {o : Observer ε β}
  {as : List α} {a : α}

theorem next_of_not_active (h : o.status.isActive = false) : o.next limit f a = o := by
  obtain ⟨received, status⟩ := o
  cases status with
  | active => cases h
  | completed => rfl
  | failed e => rfl

theorem next_of_active (h : o.status.isActive = true) (b : Option β) (hf : f a = .ok b) :
    o.next limit f a = b.elim o (o.emit limit) := by
  obtain ⟨received, status⟩ := o
  cases status with
  | active =>
    simp only [next, hf]
    cases b <;> rfl
  | completed => cases h
  | failed e => cases h

theorem next_of_error (h : o.status.isActive = true) {e : ε} (hf : f a = .error e) :
    o.next limit f a = { o with status := .failed e } := by
  obtain ⟨received, status⟩ := o
  cases status with
  | active => simp only [next, hf]
  | completed => cases h
  | failed e => cases h

theorem isFailed_next_of_error (h : o.status.isActive = true) {e : ε} (hf : f a = .error e) :
    (o.next limit f a).status.isFailed = true := by
  rw [next_of_error h hf]
  rfl

theorem expected_nil (h : limit ≠ some 0) :
    (expected limit g [] : Observer ε β) = {} := by
  cases limit with
  | none => rfl
  | some n =>
    have hn : ¬ n ≤ 0 := fun hle => h (congrArg some (Nat.le_zero.mp hle))
    simp [expected, hn]

/-- An observer that gets what it should keeps doing so, as long as the chain does not fail
on a value that it is still interested in. -/
theorem next_expected
    (h : (expected limit g as : Observer ε β).status.isActive = true → f a = .ok (g a)) :
    (expected limit g as).next limit f a = expected limit g (as ++ [a]) := by
  have happend : (as ++ [a]).filterMap g = as.filterMap g ++ (g a).toList := by
    rw [List.filterMap_append]
    cases hg : g a <;> simp [hg]
  cases limit with
  | none =>
    rw [next_of_active rfl (g a) (h rfl)]
    simp only [expected, happend]
    cases g a with
    | none => simp
    | some b => rfl
  | some n =>
    rcases Nat.lt_or_ge (as.filterMap g).length n with hlt | hge
    · have hactive : (expected (some n) g as : Observer ε β).status.isActive = true := by
        simp [expected, Nat.not_le.mpr hlt, Status.isActive]
      rw [next_of_active hactive (g a) (h hactive)]
      simp only [expected, happend]
      cases g a with
      | none => simp
      | some b =>
        have htake : (as.filterMap g).take n = as.filterMap g :=
          List.take_of_length_le (Nat.le_of_lt hlt)
        have htake' : (as.filterMap g ++ [b]).take n = as.filterMap g ++ [b] := by
          apply List.take_of_length_le
          simp only [List.length_append, List.length_singleton]
          omega
        simp only [Option.elim, emit, Option.toList, htake, htake', List.length_append,
          List.length_singleton, Option.some.injEq]
        congr 1
        exact if_congr ⟨fun h => by omega, fun h => by omega⟩ rfl rfl
    · have hinactive : (expected (some n) g as : Observer ε β).status.isActive = false := by
        simp [expected, hge, Status.isActive]
      rw [next_of_not_active hinactive]
      simp only [expected, happend, List.length_append]
      rw [List.take_append_of_le_length hge, if_pos hge, if_pos (by omega)]

theorem next_of_failed (h : o.status.isFailed = true) : o.next limit f a = o := by
  refine next_of_not_active ?_
  cases hs : o.status <;> simp_all [Status.isFailed, Status.isActive]

def dispose (o : Observer ε β) : Observer ε β :=
  if o.status.isActive then { o with status := .completed } else o

theorem isFailed_dispose : o.dispose.status.isFailed = o.status.isFailed := by
  unfold dispose
  split_ifs with h
  · cases hs : o.status <;> simp_all [Status.isFailed, Status.isActive]
  · rfl

theorem isFailed_next (h : o.status.isFailed = false)
    (hf : o.status.isActive = true → ∃ b, f a = .ok b) :
    (o.next limit f a).status.isFailed = false := by
  cases hactive : o.status.isActive with
  | false => rwa [next_of_not_active hactive]
  | true =>
    obtain ⟨b, hb⟩ := hf hactive
    rw [next_of_active hactive b hb]
    cases b with
    | none => exact h
    | some b =>
      simp only [Option.elim, emit]
      split_ifs <;> rfl

end Observer

/-- Kinds of subscribers to a stream: the chain of one may look at what it let through so
far, and one that is disposable may end its subscription at any time. -/
structure Hub (σ ε α β : Type*) where
  limit : σ → Option ℕ
  chain : σ → List β → Operator ε α β
  disposable : σ → Bool

namespace Hub
variable {σ ε α β : Type*}

inductive Event (σ α : Type*) where
  | subscribe (x : σ)
  | emit (a : α)
  | dispose (n : ℕ)

def Event.value? : Event σ α → Option α
  | emit a => some a
  | _ => none

abbrev State (σ ε β : Type*) := List (σ × Observer ε β)

/-- Who subscribes in the course of a run, each with the values that come afterwards. -/
def subscriptions : List (Event σ α) → List (σ × List α)
  | [] => []
  | .subscribe x :: es => (x, es.filterMap Event.value?) :: subscriptions es
  | _ :: es => subscriptions es

theorem subscriptions_subscribe (es : List (Event σ α)) (x : σ) :
    subscriptions (es ++ [.subscribe x]) = subscriptions es ++ [(x, [])] := by
  induction es with
  | nil => rfl
  | cons e es ih => cases e <;> simp [subscriptions, ih, List.filterMap_append, Event.value?]

theorem subscriptions_emit (es : List (Event σ α)) (a : α) :
    subscriptions (es ++ [.emit a]) = (subscriptions es).map fun p => (p.1, p.2 ++ [a]) := by
  induction es with
  | nil => rfl
  | cons e es ih => cases e <;> simp [subscriptions, ih, List.filterMap_append, Event.value?]

theorem subscriptions_dispose (es : List (Event σ α)) (n : ℕ) :
    subscriptions (es ++ [.dispose n]) = subscriptions es := by
  induction es with
  | nil => rfl
  | cons e es ih => cases e <;> simp [subscriptions, ih, List.filterMap_append, Event.value?]

section Run
variable (H : Hub σ ε α β)

def receive (a : α) (p : σ × Observer ε β) : σ × Observer ε β :=
  (p.1, p.2.next (H.limit p.1) (H.chain p.1 p.2.received) a)

def disposed (p : σ × Observer ε β) : σ × Observer ε β :=
  if H.disposable p.1 then (p.1, p.2.dispose) else p

def next (s : State σ ε β) : Event σ α → State σ ε β
  | .subscribe x => s ++ [(x, {})]
  | .emit a => s.map (H.receive a)
  | .dispose n => s.modify n H.disposed

/-- The stream with the subscribers it has from the start. -/
def machine (init : State σ ε β) : Machine (State σ ε β) (Event σ α) where
  init
  Enabled _ _ := True
  next := H.next

variable (g : σ → α → Option β)

/-- A subscription has not failed, and unless it may have been disposed of, it has got what
it should of the values that came since. -/
structure Gets (p : σ × List α) (q : σ × Observer ε β) : Prop where
  same : q.1 = p.1
  alive : q.2.status.isFailed = false
  received : H.disposable p.1 = false → q.2 = .expected (H.limit p.1) (g p.1) p.2

/-- The chain does what it should on a value, or at least does not fail. -/
def Suits (a : α) (q : σ × Observer ε β) : Prop :=
  if H.disposable q.1 then ∃ b, H.chain q.1 q.2.received a = .ok b
  else H.chain q.1 q.2.received a = .ok (g q.1 a)

/-- A value suits all subscribers that are still interested. -/
def AllSuit (s : State σ ε β) : Event σ α → Prop
  | .emit a => ∀ q ∈ s, q.2.status.isActive = true → H.Suits g a q
  | _ => True

/-- Every subscriber there was gets what it should. -/
def Served (es : List (Event σ α)) (s : State σ ε β) : Prop :=
  List.Forall₂ (H.Gets g) (subscriptions es) s

variable {H g} {s u : State σ ε β} {es es' : List (Event σ α)} {e : Event σ α}
  {p : σ × List α} {q : σ × Observer ε β} {a : α}

theorem gets_receive (h : H.Gets g p q)
    (hsuits : q.2.status.isActive = true → H.Suits g a q) :
    H.Gets g (p.1, p.2 ++ [a]) (H.receive a q) := by
  obtain ⟨x, as⟩ := p
  obtain ⟨y, o⟩ := q
  obtain ⟨hsame, halive, hreceived⟩ := h
  obtain rfl : y = x := hsame
  simp only [Suits] at hsuits
  refine ⟨rfl, ?_, fun hd => ?_⟩
  · refine Observer.isFailed_next halive fun hactive => ?_
    have hchain := hsuits hactive
    split_ifs at hchain
    · exact hchain
    · exact ⟨_, hchain⟩
  · have hd : H.disposable y = false := hd
    obtain rfl := hreceived hd
    refine Observer.next_expected fun hactive => ?_
    simpa [hd] using hsuits hactive

theorem gets_disposed (h : H.Gets g p q) : H.Gets g p (H.disposed q) := by
  unfold disposed
  split_ifs with hd
  · refine ⟨h.same, Observer.isFailed_dispose.trans h.alive, fun hno => ?_⟩
    rw [h.same, hno] at hd
    cases hd
  · exact h

theorem forall₂_modify {ps : List (σ × List α)} (h : List.Forall₂ (H.Gets g) ps s) (n : ℕ) :
    List.Forall₂ (H.Gets g) ps (s.modify n H.disposed) := by
  induction h generalizing n with
  | nil =>
    rw [List.modify_nil]
    exact .nil
  | cons hp hps ih =>
    cases n with
    | zero => exact .cons (gets_disposed hp) hps
    | succ n => exact .cons hp (ih n)

theorem forall₂_receive {ps : List (σ × List α)} (h : List.Forall₂ (H.Gets g) ps s)
    (hsuit : ∀ q ∈ s, q.2.status.isActive = true → H.Suits g a q) :
    List.Forall₂ (H.Gets g) (ps.map fun p => (p.1, p.2 ++ [a])) (s.map (H.receive a)) := by
  induction h with
  | nil => exact .nil
  | cons hp _ ih =>
    exact .cons (gets_receive hp (hsuit _ List.mem_cons_self))
      (ih fun q hq => hsuit q (List.mem_cons_of_mem _ hq))

theorem served_next (hlimit : ∀ x, H.limit x ≠ some 0) (h : H.Served g es s)
    (hsuit : H.AllSuit g s e) : H.Served g (es ++ [e]) (H.next s e) := by
  unfold Served at h ⊢
  cases e with
  | subscribe x =>
    rw [subscriptions_subscribe]
    refine List.rel_append h (.cons ⟨rfl, rfl, fun _ => ?_⟩ .nil)
    exact (Observer.expected_nil (hlimit x)).symm
  | emit a =>
    rw [subscriptions_emit]
    exact forall₂_receive h hsuit
  | dispose n =>
    rw [subscriptions_dispose]
    exact forall₂_modify h n

theorem run_foldl (init : State σ ε β) (es : List (Event σ α)) :
    (H.machine init).Run es (es.foldl H.next init) :=
  .of_foldl (fun _ _ => trivial) (fun _ _ => trivial) init es

end Run

/-! ### One subscriber -/

section Observe
variable (H : Hub σ ε α β) (x : σ)

/-- One subscriber, given the next value. -/
def observeNext (o : Observer ε β) (a : α) : Observer ε β :=
  o.next (H.limit x) (H.chain x o.received) a

/-- What has become of a subscriber after the values since it subscribed. -/
def observe (as : List α) : Observer ε β := as.foldl (H.observeNext x) {}

theorem observe_append_singleton (as : List α) (a : α) :
    H.observe x (as ++ [a]) = H.observeNext x (H.observe x as) a := by
  simp [observe, List.foldl_append]

variable {H x}

/-- Subscribers do not get in each other's way. -/
theorem getElem?_foldl_next (hx : H.disposable x = false) (es : List (Event σ α))
    {s : State σ ε β} {n : ℕ} {o : Observer ε β} (hn : s[n]? = some (x, o)) :
    (es.foldl H.next s)[n]? =
      some (x, (es.filterMap Event.value?).foldl (H.observeNext x) o) := by
  induction es generalizing s o with
  | nil => exact hn
  | cons e es ih =>
    cases e with
    | subscribe y =>
      refine ih (?_ : (s ++ [(y, {})])[n]? = some (x, o))
      rw [List.getElem?_append_left (List.getElem?_eq_some_iff.mp hn).1, hn]
    | emit a =>
      refine ih (?_ : (s.map (H.receive a))[n]? = some (x, H.observeNext x o a))
      rw [List.getElem?_map, hn]
      rfl
    | dispose m =>
      refine ih (?_ : (s.modify m H.disposed)[n]? = some (x, o))
      have hdisposed : H.disposed (x, o) = (x, o) := if_neg (by simp [hx])
      rw [List.getElem?_modify, hn]
      split_ifs <;> simp [hdisposed]

/-- In any run, one that subscribed has become what it would have become by itself. -/
theorem observe_of_run (hx : H.disposable x = false) {init : State σ ε β}
    (es es' : List (Event σ α)) :
    ((es ++ .subscribe x :: es').foldl H.next init)[(es.foldl H.next init).length]? =
      some (x, H.observe x (es'.filterMap Event.value?)) := by
  rw [List.foldl_append, List.foldl_cons]
  refine getElem?_foldl_next hx es' ?_
  simp [next]

theorem observeNext_of_not_active {o : Observer ε β} (h : o.status.isActive = false) (a : α) :
    H.observeNext x o a = o :=
  Observer.next_of_not_active h

/-- Nothing changes for a subscriber whose subscription has ended. -/
theorem foldl_observeNext_of_not_active {o : Observer ε β} (h : o.status.isActive = false)
    (as : List α) : as.foldl (H.observeNext x) o = o := by
  induction as with
  | nil => rfl
  | cons a as ih => rw [List.foldl_cons, observeNext_of_not_active h, ih]

/-- Who wants one value and still waits has got none. -/
theorem observe_of_active (hlimit : H.limit x = some 1) {as : List α}
    (hactive : (H.observe x as).status.isActive = true) : H.observe x as = {} := by
  induction as using List.reverseRecOn with
  | nil => rfl
  | append_singleton as a ih =>
    rw [observe_append_singleton] at hactive ⊢
    cases hbefore : (H.observe x as).status.isActive with
    | false => rw [observeNext_of_not_active hbefore, hbefore] at hactive; cases hactive
    | true =>
      rw [ih hbefore] at hactive ⊢
      rw [observeNext, hlimit] at hactive ⊢
      cases hf : H.chain x [] a with
      | error e => rw [Observer.next_of_error rfl hf] at hactive; cases hactive
      | ok b =>
        rw [Observer.next_of_active rfl b hf] at hactive ⊢
        cases b with
        | none => rfl
        | some b => cases hactive

end Observe
end Hub
end Rockets
