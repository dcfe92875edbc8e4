import Mathlib.Data.List.Count
import Mathlib.Data.Nat.Notation
import Mathlib.Logic.Function.Basic
import Mathlib.Tactic.Common

/-!
A message broker: exchanges, queues, and the bindings between them.

Clients declare what they need. Declaring what is there already, with the
same options, succeeds and changes nothing, so that any number of clients can
declare the same things in any order. A message is published to an exchange
under a key, and is put on every queue with a binding that the exchange
accepts for it. A queue keeps what it has handed to a consumer until that is
settled, and takes it back when the consumer is gone.

A `Route` is an exchange, a queue and a binding, as some client needs them. The
rules say that a broker that agrees with a route never refuses to declare it,
that nothing takes a durable route away (`Has.restart`), and that a queue
accounts for every message it was given (`count_restart` and the lemmas before
it).

Which keys an exchange accepts, and where in a queue a message is put that
comes back, are parameters.
-/

namespace BackupService.Lib

/-! ### Queues -/

structure QueueOptions where
  durable : Bool
  exclusive : Bool
  autoDelete : Bool
  deriving DecidableEq, Repr

/-- A queue, with what its consumers have been handed and have not settled. -/
structure BrokerQueue (μ : Type) where
  options : QueueOptions
  ready : List μ
  unacked : List (ℕ × μ)

/-- Where messages that come back are put. -/
structure Placement (μ : Type) where
  place : List μ → List μ → List μ
  perm : ∀ back ready, (place back ready).Perm (back ++ ready)

namespace BrokerQueue

variable {μ : Type} (q : BrokerQueue μ)

/-- What the queue is responsible for. -/
def contents : List μ := q.ready ++ q.unacked.map Prod.snd

def push (m : μ) : BrokerQueue μ := { q with ready := q.ready ++ [m] }

/-- The head of the queue goes to a consumer. -/
def deliver (consumer : ℕ) : BrokerQueue μ :=
  match q.ready with
  | [] => q
  | m :: ready => { q with ready, unacked := q.unacked ++ [(consumer, m)] }

/-- A consumer settles a message: it goes back, or it is removed. -/
def settle (placement : Placement μ) (consumer i : ℕ) (requeue : Bool) : BrokerQueue μ × List μ :=
  match q.unacked[i]? with
  | some (c, m) =>
      if c ≠ consumer then (q, [])
      else if requeue then
        ({ q with ready := placement.place [m] q.ready, unacked := q.unacked.eraseIdx i }, [])
      else ({ q with unacked := q.unacked.eraseIdx i }, [m])
  | none => (q, [])

/-- A consumer is gone. -/
def release (placement : Placement μ) (consumer : ℕ) : BrokerQueue μ :=
  { q with
    ready := placement.place ((q.unacked.filter fun x => x.1 = consumer).map Prod.snd) q.ready
    unacked := q.unacked.filter fun x => x.1 ≠ consumer }

/-- All consumers are gone, and only persistent messages are left. -/
def restart (placement : Placement μ) (persistent : μ → Bool) : BrokerQueue μ :=
  { q with
    ready := (placement.place (q.unacked.map Prod.snd) q.ready).filter persistent
    unacked := [] }

@[simp] theorem push_options (m : μ) : (q.push m).options = q.options := rfl

@[simp] theorem deliver_options (consumer : ℕ) : (q.deliver consumer).options = q.options := by
  unfold deliver
  split <;> rfl

@[simp] theorem settle_options (placement : Placement μ) (consumer i : ℕ) (requeue : Bool) :
    (q.settle placement consumer i requeue).1.options = q.options := by
  unfold settle
  split
  · split
    · rfl
    · split <;> rfl
  · rfl

@[simp] theorem release_options (placement : Placement μ) (consumer : ℕ) :
    (q.release placement consumer).options = q.options := rfl

@[simp] theorem restart_options (placement : Placement μ) (persistent : μ → Bool) :
    (q.restart placement persistent).options = q.options := rfl

/-! #### What the queue accounts for -/

section Counts

variable [DecidableEq μ] (m : μ)

theorem count_place (placement : Placement μ) (back ready : List μ) :
    (placement.place back ready).count m = back.count m + ready.count m := by
  rw [(placement.perm back ready).count_eq, List.count_append]

theorem count_eraseIdx {l : List (ℕ × μ)} {i c : ℕ} {m' : μ} (h : l[i]? = some (c, m')) :
    (l.map Prod.snd).count m = ((l.eraseIdx i).map Prod.snd).count m + [m'].count m := by
  induction l generalizing i with
  | nil => simp at h
  | cons x l ih =>
      cases i with
      | zero =>
          obtain rfl : x = (c, m') := by simpa using h
          simp only [List.eraseIdx_cons_zero, List.map_cons, List.count_cons, List.count_nil]
          omega
      | succ i =>
          have hrest := ih (by simpa using h)
          simp only [List.eraseIdx_cons_succ, List.map_cons, List.count_cons] at hrest ⊢
          omega

@[simp] theorem count_push (m' : μ) :
    (q.push m').contents.count m = q.contents.count m + [m'].count m := by
  simp only [contents, push, List.count_append]
  omega

@[simp] theorem count_deliver (consumer : ℕ) :
    (q.deliver consumer).contents.count m = q.contents.count m := by
  unfold deliver
  split
  · rfl
  · rename_i m' ready hready
    simp only [contents, hready, List.map_append, List.map_cons, List.map_nil, List.count_append,
      List.count_cons, List.count_nil]
    omega

/-- What has been removed has been in the queue, and nothing else has changed. -/
theorem count_settle (placement : Placement μ) (consumer i : ℕ) (requeue : Bool) :
    (q.settle placement consumer i requeue).1.contents.count m +
        (q.settle placement consumer i requeue).2.count m = q.contents.count m := by
  unfold settle
  split
  · rename_i c m' hm
    have herase := count_eraseIdx m hm
    split
    · simp
    · split
      · simp only [contents, List.count_append, count_place, List.count_nil]
        omega
      · simp only [contents, List.count_append]
        omega
  · simp

theorem count_filter_owner (l : List (ℕ × μ)) (consumer : ℕ) : (l.map Prod.snd).count m =
    ((l.filter fun x => x.1 = consumer).map Prod.snd).count m +
      ((l.filter fun x => x.1 ≠ consumer).map Prod.snd).count m := by
  induction l with
  | nil => rfl
  | cons x l ih =>
      by_cases hx : x.1 = consumer
      · simp only [hx, List.filter_cons, decide_true, not_true_eq_false, decide_false, if_true,
          List.map_cons, List.count_cons, ne_eq, ih]
        simp
        omega
      · simp only [hx, List.filter_cons, decide_false, not_false_eq_true, decide_true, if_true,
          List.map_cons, List.count_cons, ne_eq, ih]
        simp
        omega

@[simp] theorem count_release (placement : Placement μ) (consumer : ℕ) :
    (q.release placement consumer).contents.count m = q.contents.count m := by
  have := count_filter_owner m q.unacked consumer
  simp only [contents, release, List.count_append, count_place]
  omega

/-- A queue that has only persistent messages loses none. -/
theorem count_restart (placement : Placement μ) {persistent : μ → Bool}
    (h : ∀ m ∈ q.contents, persistent m = true) :
    (q.restart placement persistent).contents.count m = q.contents.count m := by
  have hall : ((placement.place (q.unacked.map Prod.snd) q.ready).filter persistent) =
      placement.place (q.unacked.map Prod.snd) q.ready := by
    refine List.filter_eq_self.mpr fun m' hm' => h m' ?_
    have hmem := (placement.perm _ _).mem_iff.mp hm'
    simpa [contents, or_comm] using hmem
  simp only [contents, restart, hall, List.map_nil, List.append_nil, count_place, List.count_append]
  omega

end Counts

end BrokerQueue

/-! ### The broker -/

/-- An exchange of kind `κ`. -/
structure Exchange (κ : Type) where
  kind : κ
  durable : Bool
  autoDelete : Bool
  internal : Bool
  deriving DecidableEq, Repr

structure Binding (ν : Type) where
  exchange : ν
  queue : ν
  key : ν
  deriving DecidableEq, Repr

inductive BrokerError
  /-- There is one of that name with other options. -/
  | preconditionFailed
  | notFound
  deriving DecidableEq, Repr

structure MessageBroker (κ ν μ : Type) where
  exchanges : ν → Option (Exchange κ)
  queues : ν → Option (BrokerQueue μ)
  bindings : List (Binding ν)

namespace MessageBroker

variable {κ ν μ : Type} [DecidableEq κ] [DecidableEq ν] (b : MessageBroker κ ν μ)

def exchangeDeclare (name : ν) (x : Exchange κ) : Except BrokerError Unit × MessageBroker κ ν μ :=
  match b.exchanges name with
  | none => (.ok (), { b with exchanges := Function.update b.exchanges name (some x) })
  | some y => (if y = x then .ok () else .error .preconditionFailed, b)

def queueDeclare (name : ν) (options : QueueOptions) :
    Except BrokerError Unit × MessageBroker κ ν μ :=
  match b.queues name with
  | none => (.ok (), { b with queues := Function.update b.queues name (some ⟨options, [], []⟩) })
  | some q => (if q.options = options then .ok () else .error .preconditionFailed, b)

def queueBind (d : Binding ν) : Except BrokerError Unit × MessageBroker κ ν μ :=
  match b.exchanges d.exchange, b.queues d.queue with
  | some _, some _ =>
      (.ok (), if d ∈ b.bindings then b else { b with bindings := b.bindings ++ [d] })
  | _, _ => (.error .notFound, b)

/-- The message goes to the queue. -/
def routes (accepts : κ → ν → ν → Bool) (exchange key queue : ν) : Bool :=
  b.bindings.any fun d => d.exchange = exchange && d.queue = queue &&
    (b.exchanges exchange).any fun x => accepts x.kind d.key key

/-- The message is put on the queues that are chosen. -/
def pushTo (chosen : ν → Bool) (m : μ) : MessageBroker κ ν μ :=
  { b with queues := fun name => (b.queues name).map fun q => if chosen name then q.push m else q }

def publish (accepts : κ → ν → ν → Bool) (exchange key : ν) (m : μ) :
    Except BrokerError Unit × MessageBroker κ ν μ :=
  match b.exchanges exchange with
  | none => (.error .notFound, b)
  | some _ => (.ok (), b.pushTo (b.routes accepts exchange key) m)

/-- Something happens to one queue. -/
def onQueue (name : ν) (f : BrokerQueue μ → BrokerQueue μ) : MessageBroker κ ν μ :=
  { b with queues := Function.update b.queues name ((b.queues name).map f) }

def deliver (name : ν) (consumer : ℕ) : MessageBroker κ ν μ := b.onQueue name (·.deliver consumer)

/-- The broker after a message has been settled, and what has been removed. -/
def settle (placement : Placement μ) (name : ν) (consumer i : ℕ) (requeue : Bool) :
    MessageBroker κ ν μ × List μ :=
  (b.onQueue name fun q => (q.settle placement consumer i requeue).1,
    ((b.queues name).map fun q => (q.settle placement consumer i requeue).2).getD [])

def release (placement : Placement μ) (consumer : ℕ) : MessageBroker κ ν μ :=
  { b with queues := fun name => (b.queues name).map (·.release placement consumer) }

/-- What is durable is still there afterwards. -/
def restart (placement : Placement μ) (persistent : μ → Bool) : MessageBroker κ ν μ where
  exchanges name := (b.exchanges name).filter (·.durable)
  queues name := ((b.queues name).filter (·.options.durable)).map (·.restart placement persistent)
  bindings := b.bindings.filter fun d => (b.exchanges d.exchange).any (·.durable) &&
    (b.queues d.queue).any (·.options.durable)

/-- What the queue of that name is responsible for. -/
def contents (name : ν) : List μ := ((b.queues name).map BrokerQueue.contents).getD []

end MessageBroker

/-! ### Routes -/

/-- What a client needs in order to get messages into a queue. -/
structure Route (κ ν : Type) where
  exchange : ν
  exchangeOptions : Exchange κ
  queue : ν
  queueOptions : QueueOptions
  key : ν

/-- It outlives a restart. -/
structure Route.Durable {κ ν : Type} (r : Route κ ν) : Prop where
  exchange : r.exchangeOptions.durable = true
  queue : r.queueOptions.durable = true

def Route.binding {κ ν : Type} (r : Route κ ν) : Binding ν := ⟨r.exchange, r.queue, r.key⟩

/-- A route is declared piece by piece. -/
inductive RoutePart
  | exchange
  | queue
  /-- The binding, and what it binds. -/
  | binding
  deriving DecidableEq, Repr

namespace MessageBroker

section Keeps

variable {κ ν μ : Type} {b b' : MessageBroker κ ν μ} {r : Route κ ν}

/-- Nobody has declared the parts of the route in another way. -/
structure Agrees (b : MessageBroker κ ν μ) (r : Route κ ν) : Prop where
  exchange : ∀ x, b.exchanges r.exchange = some x → x = r.exchangeOptions
  queue : ∀ q, b.queues r.queue = some q → q.options = r.queueOptions

/-- The whole route is there. -/
structure Has (b : MessageBroker κ ν μ) (r : Route κ ν) : Prop where
  exchange : b.exchanges r.exchange = some r.exchangeOptions
  queue : ∃ q, b.queues r.queue = some q ∧ q.options = r.queueOptions
  binding : r.binding ∈ b.bindings

/-- The part of the route is there. -/
def HasPart (b : MessageBroker κ ν μ) (r : Route κ ν) : RoutePart → Prop
  | .exchange => b.exchanges r.exchange = some r.exchangeOptions
  | .queue => ∃ q, b.queues r.queue = some q ∧ q.options = r.queueOptions
  | .binding => b.Has r

/-- Nothing is changed about what is there of the route. -/
structure Keeps (r : Route κ ν) (b b' : MessageBroker κ ν μ) : Prop where
  agrees : b.Agrees r → b'.Agrees r
  part : ∀ part, b.HasPart r part → b'.HasPart r part

theorem Keeps.refl (b : MessageBroker κ ν μ) : Keeps r b b := ⟨id, fun _ => id⟩

/-- Operations that leave exchanges and bindings alone, and the options of
queues. -/
theorem keeps_of_queues (hexchanges : b'.exchanges = b.exchanges) (hbindings : b'.bindings = b.bindings)
    (hqueues : (b'.queues r.queue).map BrokerQueue.options =
      (b.queues r.queue).map BrokerQueue.options) : Keeps r b b' := by
  have hqueue : (∃ q, b.queues r.queue = some q ∧ q.options = r.queueOptions) →
      ∃ q, b'.queues r.queue = some q ∧ q.options = r.queueOptions := by
    rintro ⟨q, hq, hoptions⟩
    rw [hq, Option.map_some] at hqueues
    obtain ⟨q', hq', heq⟩ := Option.map_eq_some_iff.mp hqueues
    exact ⟨q', hq', heq.trans hoptions⟩
  constructor
  · rintro ⟨hx, hq⟩
    refine ⟨by rwa [hexchanges], fun q h => ?_⟩
    rw [h, Option.map_some] at hqueues
    obtain ⟨q', hq', hoptions⟩ := Option.map_eq_some_iff.mp hqueues.symm
    rw [← hoptions]
    exact hq q' hq'
  · intro part h
    cases part with
    | exchange => rwa [HasPart, hexchanges]
    | queue => exact hqueue h
    | binding => exact ⟨by rw [hexchanges, h.exchange], hqueue h.queue, by rw [hbindings]; exact h.binding⟩

end Keeps

/-! #### Operations that keep a route -/

section Operations

variable {κ ν μ : Type} [DecidableEq ν] (b : MessageBroker κ ν μ) (r : Route κ ν)

theorem keeps_onQueue (name : ν) {f : BrokerQueue μ → BrokerQueue μ}
    (hf : ∀ q, (f q).options = q.options) : Keeps r b (b.onQueue name f) := by
  refine keeps_of_queues rfl rfl ?_
  by_cases hname : r.queue = name
  · subst hname
    simp only [onQueue, Function.update_self, Option.map_map]
    exact congrArg (Option.map · _) (funext hf)
  · simp only [onQueue, Function.update_of_ne hname]

theorem keeps_deliver (name : ν) (consumer : ℕ) : Keeps r b (b.deliver name consumer) :=
  keeps_onQueue b r name fun q => q.deliver_options consumer

theorem keeps_settle (placement : Placement μ) (name : ν) (consumer i : ℕ) (requeue : Bool) :
    Keeps r b (b.settle placement name consumer i requeue).1 :=
  keeps_onQueue b r name fun q => q.settle_options placement consumer i requeue

theorem keeps_publish (accepts : κ → ν → ν → Bool) (exchange key : ν) (m : μ) :
    Keeps r b (b.publish accepts exchange key m).2 := by
  unfold publish
  split
  · exact .refl b
  · refine keeps_of_queues rfl rfl ?_
    simp only [pushTo, Option.map_map]
    refine congrArg (Option.map · _) (funext fun q => ?_)
    simp only [Function.comp_apply]
    split <;> rfl

omit [DecidableEq ν]

theorem keeps_release (placement : Placement μ) (consumer : ℕ) :
    Keeps r b (b.release placement consumer) := by
  refine keeps_of_queues rfl rfl ?_
  simp only [release, Option.map_map]
  rfl

/-- Nothing takes a durable route away. -/
theorem keeps_restart (hdurable : r.Durable) (placement : Placement μ) (persistent : μ → Bool) :
    Keeps r b (b.restart placement persistent) := by
  have hexchange : b.exchanges r.exchange = some r.exchangeOptions →
      (b.restart placement persistent).exchanges r.exchange = some r.exchangeOptions := fun h =>
    Option.filter_eq_some_iff.mpr ⟨h, hdurable.exchange⟩
  have hqueue : (∃ q, b.queues r.queue = some q ∧ q.options = r.queueOptions) →
      ∃ q, (b.restart placement persistent).queues r.queue = some q ∧ q.options = r.queueOptions := by
    rintro ⟨q, hq, hoptions⟩
    refine ⟨q.restart placement persistent, ?_, hoptions⟩
    have hkept : (b.queues r.queue).filter (·.options.durable) = some q :=
      Option.filter_eq_some_iff.mpr ⟨hq, by rw [hoptions]; exact hdurable.queue⟩
    simp only [restart, hkept, Option.map_some]
  constructor
  · rintro ⟨hx, hq⟩
    constructor
    · intro x h
      exact hx x (Option.filter_eq_some_iff.mp h).1
    · intro q h
      obtain ⟨q', hq', rfl⟩ := Option.map_eq_some_iff.mp h
      exact hq q' (Option.filter_eq_some_iff.mp hq').1
  · intro part h
    cases part with
    | exchange => exact hexchange h
    | queue => exact hqueue h
    | binding =>
        refine ⟨hexchange h.exchange, hqueue h.queue, List.mem_filter.mpr ⟨h.binding, ?_⟩⟩
        obtain ⟨q, hq, hoptions⟩ := h.queue
        simp [Route.binding, h.exchange, hq, hoptions, hdurable.exchange, hdurable.queue]

end Operations

/-! #### Declaring a route -/

section Declare

variable {κ ν μ : Type} [DecidableEq ν] {b : MessageBroker κ ν μ} {r : Route κ ν}

theorem exchangeDeclare_route [DecidableEq κ] (h : b.Agrees r) :
    (b.exchangeDeclare r.exchange r.exchangeOptions).1 = .ok () ∧
      (b.exchangeDeclare r.exchange r.exchangeOptions).2.HasPart r .exchange ∧
      Keeps r b (b.exchangeDeclare r.exchange r.exchangeOptions).2 := by
  unfold exchangeDeclare
  split
  · rename_i hnone
    refine ⟨rfl, Function.update_self .., ⟨fun hagrees => ⟨fun x hx => ?_, hagrees.queue⟩, ?_⟩⟩
    · simp only [Function.update_self] at hx
      exact (Option.some.inj hx).symm
    · intro part hpart
      cases part with
      | exchange => exact Function.update_self ..
      | queue => exact hpart
      | binding => exact ⟨Function.update_self .., hpart.queue, hpart.binding⟩
  · rename_i x hx
    obtain rfl := h.exchange x hx
    exact ⟨if_pos rfl, hx, .refl b⟩

theorem queueDeclare_route (h : b.Agrees r) :
    (b.queueDeclare r.queue r.queueOptions).1 = .ok () ∧
      (b.queueDeclare r.queue r.queueOptions).2.HasPart r .queue ∧
      Keeps r b (b.queueDeclare r.queue r.queueOptions).2 := by
  unfold queueDeclare
  split
  · rename_i hnone
    have hnew : ∃ q, Function.update b.queues r.queue (some ⟨r.queueOptions, [], []⟩) r.queue = some q ∧
        q.options = r.queueOptions := ⟨_, Function.update_self .., rfl⟩
    refine ⟨rfl, hnew, ⟨fun hagrees => ⟨hagrees.exchange, fun q hq => ?_⟩, ?_⟩⟩
    · simp only [Function.update_self] at hq
      rw [← Option.some.inj hq]
    · intro part hpart
      cases part with
      | exchange => exact hpart
      | queue => exact hnew
      | binding => exact ⟨hpart.exchange, hnew, hpart.binding⟩
  · rename_i q hq
    have hoptions := h.queue q hq
    exact ⟨if_pos hoptions, ⟨q, hq, hoptions⟩, .refl b⟩

theorem queueBind_route (hexchange : b.HasPart r .exchange) (hqueue : b.HasPart r .queue) :
    (b.queueBind r.binding).1 = .ok () ∧ (b.queueBind r.binding).2.HasPart r .binding ∧
      Keeps r b (b.queueBind r.binding).2 := by
  obtain ⟨q, hq, hoptions⟩ := hqueue
  have hsome : b.exchanges r.binding.exchange = some r.exchangeOptions := hexchange
  have hsome' : b.queues r.binding.queue = some q := hq
  simp only [queueBind, hsome, hsome']
  split
  · rename_i hmem
    exact ⟨trivial, ⟨hexchange, ⟨q, hq, hoptions⟩, hmem⟩, .refl b⟩
  · refine ⟨trivial, ⟨hexchange, ⟨q, hq, hoptions⟩, by simp⟩, ⟨fun h => ⟨h.exchange, h.queue⟩, ?_⟩⟩
    intro part hpart
    cases part with
    | exchange => exact hpart
    | queue => exact hpart
    | binding => exact ⟨hpart.exchange, hpart.queue, List.mem_append_left _ hpart.binding⟩

end Declare

/-! #### What a queue accounts for -/

section Contents

variable {κ ν μ : Type} {b : MessageBroker κ ν μ}
  {name : ν}

theorem contents_of_some {q : BrokerQueue μ} (h : b.queues name = some q) :
    b.contents name = q.contents := by
  rw [contents, h]
  rfl

@[simp] theorem contents_exchangeDeclare [DecidableEq κ] [DecidableEq ν] (name' : ν) (x : Exchange κ) :
    (b.exchangeDeclare name' x).2.contents name = b.contents name := by
  unfold exchangeDeclare
  split <;> rfl

@[simp] theorem contents_queueDeclare [DecidableEq ν] (name' : ν) (options : QueueOptions) :
    (b.queueDeclare name' options).2.contents name = b.contents name := by
  unfold queueDeclare
  split
  · rename_i hnone
    by_cases hname : name = name'
    · subst hname
      simp only [contents, Function.update_self, hnone]
      rfl
    · simp only [contents, Function.update_of_ne hname]
  · rfl

@[simp] theorem contents_queueBind [DecidableEq ν] (d : Binding ν) :
    (b.queueBind d).2.contents name = b.contents name := by
  unfold queueBind
  split
  · split <;> rfl
  · rfl

variable [DecidableEq μ] (m : μ)

theorem count_onQueue [DecidableEq ν] {name' : ν} {f : BrokerQueue μ → BrokerQueue μ}
    (hf : ∀ q, b.queues name' = some q → (f q).contents.count m = q.contents.count m) :
    ((b.onQueue name' f).contents name).count m = (b.contents name).count m := by
  by_cases hname : name = name'
  · subst hname
    simp only [contents, onQueue, Function.update_self]
    cases hq : b.queues name with
    | none => rfl
    | some q => exact hf q hq
  · simp only [contents, onQueue, Function.update_of_ne hname]

@[simp] theorem count_deliver [DecidableEq ν] (name' : ν) (consumer : ℕ) :
    ((b.deliver name' consumer).contents name).count m = (b.contents name).count m :=
  count_onQueue m fun q _ => q.count_deliver m consumer

/-- What is removed is no longer in the queue. -/
theorem count_settle [DecidableEq ν] (placement : Placement μ) (consumer i : ℕ) (requeue : Bool) :
    ((b.settle placement name consumer i requeue).1.contents name).count m +
      (b.settle placement name consumer i requeue).2.count m = (b.contents name).count m := by
  cases hq : b.queues name with
  | none => simp [settle, onQueue, contents, hq]
  | some q =>
      have hqueue := q.count_settle m placement consumer i requeue
      simpa [settle, onQueue, contents, hq] using hqueue

@[simp] theorem count_release (placement : Placement μ) (consumer : ℕ) :
    ((b.release placement consumer).contents name).count m = (b.contents name).count m := by
  cases hq : b.queues name with
  | none => simp [release, contents, hq]
  | some q => simp [release, contents, hq]

theorem count_restart (placement : Placement μ) {persistent : μ → Bool}
    (hdurable : ∀ q, b.queues name = some q → q.options.durable = true)
    (h : ∀ m ∈ b.contents name, persistent m = true) :
    ((b.restart placement persistent).contents name).count m = (b.contents name).count m := by
  cases hq : b.queues name with
  | none => simp [restart, contents, hq]
  | some q =>
      rw [contents_of_some hq] at h ⊢
      have hkept : (b.queues name).filter (·.options.durable) = some q :=
        Option.filter_eq_some_iff.mpr ⟨hq, hdurable q hq⟩
      have hrestarted : (b.restart placement persistent).queues name =
          some (q.restart placement persistent) := by
        simp only [restart, hkept, Option.map_some]
      rw [contents_of_some hrestarted]
      exact q.count_restart m placement h

/-- A message that is published along a route is put on its queue, once. -/
theorem publish_route [DecidableEq ν] {r : Route κ ν} (h : b.Has r) {accepts : κ → ν → ν → Bool}
    (haccepts : accepts r.exchangeOptions.kind r.key r.key = true) (m' : μ) :
    (b.publish accepts r.exchange r.key m').1 = .ok () ∧
      ((b.publish accepts r.exchange r.key m').2.contents r.queue).count m =
        (b.contents r.queue).count m + [m'].count m := by
  obtain ⟨q, hq, -⟩ := h.queue
  have hroutes : b.routes accepts r.exchange r.key r.queue = true := by
    refine List.any_eq_true.mpr ⟨r.binding, h.binding, ?_⟩
    simp [Route.binding, h.exchange, haccepts]
  have hpushed : (b.pushTo (b.routes accepts r.exchange r.key) m').queues r.queue =
      some (q.push m') := by
    simp only [pushTo, hq, Option.map_some, hroutes, if_true]
  simp only [publish, h.exchange]
  rw [contents_of_some hpushed, contents_of_some hq]
  exact ⟨trivial, q.count_push m m'⟩

end Contents

end MessageBroker

end BackupService.Lib
