import BackupService.Lib.Machine
import BackupService.Lib.MessageBroker
import BackupService.Worker

/-!
The broker, and what the processes do to it.

Every service and every worker declares the exchange, the queue and the
binding of the jobs when it connects (`connect_rabbitmq`). A service then
publishes jobs, a worker consumes them, and all of them come and go, lose
their connections, and the broker is restarted under them. What keeps this
together is that all of them declare the same, and that everything in it
outlives a restart: the exchange, the queue, and the messages.

What is left open is what the machine takes as parameters: how exchanges of
other kinds route, and where in a queue the broker puts what comes back.
-/

namespace BackupService

open Lib

/-! ### Connecting -/

def exchangeName : String := "backup_events"

def queueName : String := "backup_jobs"

def routingKey : String := "backup.process"

/-- `lapin::ExchangeKind` -/
inductive ExchangeKind
  | direct
  | fanout
  | topic
  | headers
  deriving DecidableEq, Repr

/-- Which keys an exchange accepts for a binding. -/
structure Routing where
  accepts : ExchangeKind → String → String → Bool
  direct : ∀ binding key, accepts .direct binding key = decide (binding = key)

/-- `ExchangeDeclareOptions { durable: true, ..Default::default() }` -/
def exchangeOptions : Exchange ExchangeKind where
  kind := .direct
  durable := true
  autoDelete := false
  internal := false

/-- `QueueDeclareOptions { durable: true, ..Default::default() }` -/
def queueOptions : QueueOptions where
  durable := true
  exclusive := false
  autoDelete := false

inductive LinkError
  /-- There is no connection, or no answer. -/
  | lost
  /-- The broker has closed the channel. -/
  | refused (e : BrokerError)
  deriving DecidableEq, Repr

/-- What a process does before it publishes or consumes. -/
inductive LinkOp
  | connect (url : String)
  | createChannel
  | exchangeDeclare (name : String) (x : Exchange ExchangeKind)
  | queueDeclare (name : String) (options : QueueOptions)
  | queueBind (d : Binding String)
  | basicConsume (queue : String)
  deriving DecidableEq, Repr

/-- The operation that needs no connection. -/
def LinkOp.connects : LinkOp → Bool
  | connect _ => true
  | _ => false

abbrev LinkAction (α : Type) := Program LinkOp (fun _ => Except LinkError Unit) α

def linkOp (o : LinkOp) : ExceptT LinkError LinkAction Unit := ExceptT.mk (Program.perform o)

def connectRabbitmq (amqpUrl : String) : ExceptT LinkError LinkAction Unit := do
  linkOp (.connect amqpUrl)
  linkOp .createChannel
  linkOp (.exchangeDeclare exchangeName exchangeOptions)
  linkOp (.queueDeclare queueName queueOptions)
  linkOp (.queueBind ⟨exchangeName, queueName, routingKey⟩)

/-- A process of one of the two binaries. -/
inductive Role
  | service
  | worker
  deriving DecidableEq, Repr

/-- What the process does with the broker, up to the point where it
publishes, or takes deliveries. -/
def Role.link (amqpUrl : String) : Role → ExceptT LinkError LinkAction Unit
  | service => connectRabbitmq amqpUrl
  | worker => do
      connectRabbitmq amqpUrl
      linkOp .createChannel
      linkOp (.basicConsume queueName)

structure BasicProperties where
  contentType : Option String
  deliveryMode : Option ℕ
  deriving DecidableEq, Repr

/-- A `basic_publish` of the process `sender`. Publishes are numbered in the
order in which they are handed over. -/
structure BasicPublish where
  sender : ℕ
  number : ℕ
  exchange : String
  routingKey : String
  properties : BasicProperties
  job : BackupJob
  deriving DecidableEq, Repr

/-- What `publish_job` publishes. -/
def publishFrame (sender number : ℕ) (job : BackupJob) : BasicPublish where
  sender := sender
  number := number
  exchange := exchangeName
  routingKey := BackupService.routingKey
  properties := ⟨some "application/json", some 2⟩
  job := job

/-- Delivery mode 2. -/
def BasicPublish.persistent (m : BasicPublish) : Bool := m.properties.deliveryMode = some 2

/-! ### The processes and the broker -/

abbrev JobBroker := MessageBroker ExchangeKind String BasicPublish

/-- What the broker does with an operation that reaches it. -/
def LinkOp.exec (broker : JobBroker) : LinkOp → Except LinkError Unit × JobBroker
  | connect _ => (.ok (), broker)
  | createChannel => (.ok (), broker)
  | exchangeDeclare name x =>
      let (r, broker) := broker.exchangeDeclare name x
      (r.mapError .refused, broker)
  | queueDeclare name options =>
      let (r, broker) := broker.queueDeclare name options
      (r.mapError .refused, broker)
  | queueBind d =>
      let (r, broker) := broker.queueBind d
      (r.mapError .refused, broker)
  | basicConsume queue =>
      (if (broker.queues queue).isSome then .ok () else .error (.refused .notFound), broker)

inductive LinkState
  | down
  | linking (o : LinkOp) (k : Except LinkError Unit → LinkAction (Except LinkError Unit))
  | linked (result : Except LinkError Unit)

def LinkState.of : LinkAction (Except LinkError Unit) → LinkState
  | .op o k => linking o k
  | .ret r => linked r

structure RabbitClient where
  state : LinkState := .down
  /-- The connection is open. -/
  isOpen : Bool := false
  /-- What has been handed to the connection and has not been transmitted. -/
  outbox : List BasicPublish := []

structure Rabbit where
  broker : JobBroker
  clients : ℕ → RabbitClient
  /-- The number of publishes so far. -/
  handed : ℕ

inductive RabbitEvent
  | start (c : ℕ)
  /-- The process performs its next operation. -/
  | link (c : ℕ) (fault : Fault)
  /-- `publish_job` -/
  | publish (c : ℕ) (job : BackupJob)
  /-- The next frame of the process reaches the broker. -/
  | transmit (c : ℕ)
  /-- The connection of the process is lost. -/
  | lose (c : ℕ)
  /-- The process ends. -/
  | stop (c : ℕ)
  | deliver (c : ℕ)
  /-- The decision about the `i`-th message that is not settled reaches the
  broker. -/
  | settle (c i : ℕ) (d : Decision)
  /-- The broker is stopped, and started again. What is persistent has been
  written to disk by then. -/
  | restart

inductive RabbitObs
  | answered (c : ℕ) (o : LinkOp) (r : Except LinkError Unit)
  | handed (m : BasicPublish)
  | arrived (m : BasicPublish)
  /-- The broker has forgotten the message. -/
  | removed (m : BasicPublish)
  deriving DecidableEq

namespace Rabbit

variable (s : Rabbit)

def setClient (c : ℕ) (client : RabbitClient) : Rabbit :=
  { s with clients := Function.update s.clients c client }

@[simp] theorem setClient_broker (c : ℕ) (client : RabbitClient) :
    (s.setClient c client).broker = s.broker := rfl

@[simp] theorem setClient_handed (c : ℕ) (client : RabbitClient) :
    (s.setClient c client).handed = s.handed := rfl

@[simp] theorem setClient_clients_self (c : ℕ) (client : RabbitClient) :
    (s.setClient c client).clients c = client := Function.update_self ..

theorem setClient_clients_of_ne {c c' : ℕ} (h : c' ≠ c) (client : RabbitClient) :
    (s.setClient c client).clients c' = s.clients c' := Function.update_of_ne h ..

/-- The connection is gone, with all that waits in it. -/
def disconnect (placement : Placement BasicPublish) (c : ℕ) (state : LinkState) : Rabbit :=
  { s with
    broker := s.broker.release placement c
    clients := Function.update s.clients c { state } }

def link (placement : Placement BasicPublish) (c : ℕ) (fault : Fault) : Rabbit × List RabbitObs :=
  let client := s.clients c
  match client.state with
  | .linking o k =>
      let lost : Except LinkError Unit := .error .lost
      match client.isOpen || o.connects, fault with
      | true, .none =>
          let (r, broker) := o.exec s.broker
          ({ s with broker }.setClient c { client with state := .of (k r), isOpen := true },
            [.answered c o r])
      | true, .after =>
          ({ s with broker := (o.exec s.broker).2 }.disconnect placement c (.of (k lost)),
            [.answered c o lost])
      | _, _ => (s.disconnect placement c (.of (k lost)), [.answered c o lost])
  | _ => (s, [])

def publish (c : ℕ) (job : BackupJob) : Rabbit × List RabbitObs :=
  let client := s.clients c
  match client.state, client.isOpen with
  | .linked (.ok ()), true =>
      let m := publishFrame c s.handed job
      ({ s with handed := s.handed + 1 }.setClient c { client with outbox := client.outbox ++ [m] },
        [.handed m])
  | _, _ => (s, [])

def transmit (routing : Routing) (placement : Placement BasicPublish) (c : ℕ) :
    Rabbit × List RabbitObs :=
  let client := s.clients c
  match client.outbox with
  | [] => (s, [])
  | m :: outbox =>
      match s.broker.publish routing.accepts m.exchange m.routingKey m with
      | (.ok (), broker) => ({ s with broker }.setClient c { client with outbox }, [.arrived m])
      | (.error _, broker) => ({ s with broker }.disconnect placement c client.state, [.arrived m])

/-- Only a worker is sent deliveries. -/
def deliver (roles : ℕ → Role) (c : ℕ) : Rabbit :=
  match roles c, (s.clients c).state, (s.clients c).isOpen with
  | .worker, .linked (.ok ()), true => { s with broker := s.broker.deliver queueName c }
  | _, _, _ => s

def settle (placement : Placement BasicPublish) (c i : ℕ) (d : Decision) : Rabbit × List RabbitObs :=
  let (broker, removed) := s.broker.settle placement queueName c i (d = .nack true)
  ({ s with broker }, removed.map .removed)

def restart (placement : Placement BasicPublish) : Rabbit :=
  { s with
    broker := s.broker.restart placement BasicPublish.persistent
    clients := fun c => { state := (s.clients c).state } }

end Rabbit

/-- The processes and the broker as a machine. -/
def rabbit (routing : Routing) (placement : Placement BasicPublish) (roles : ℕ → Role)
    (amqpUrl : ℕ → String) : Machine Rabbit RabbitEvent RabbitObs where
  step s
    | .start c =>
        match (s.clients c).state with
        | .down => (s.setClient c { state := .of ((roles c).link (amqpUrl c)).run }, [])
        | _ => (s, [])
    | .link c fault => s.link placement c fault
    | .publish c job => s.publish c job
    | .transmit c => s.transmit routing placement c
    | .lose c => (s.disconnect placement c (s.clients c).state, [])
    | .stop c => (s.disconnect placement c .down, [])
    | .deliver c => (s.deliver roles c, [])
    | .settle c i d => s.settle placement c i d
    | .restart => (s.restart placement, [])

/-- No process has been started. -/
def Rabbit.initial (broker : JobBroker) : Rabbit where
  broker := broker
  clients := fun _ => {}
  handed := 0

/-! ### What all of them declare -/

def jobsRoute : Route ExchangeKind String where
  exchange := exchangeName
  exchangeOptions := exchangeOptions
  queue := queueName
  queueOptions := queueOptions
  key := routingKey

theorem jobsRoute_durable : jobsRoute.Durable := ⟨rfl, rfl⟩

/-- Which parts of the route the process has been told are there. -/
def linkedParts : List RoutePart → LinkOp → Except LinkError Unit → List RoutePart
  | parts, .exchangeDeclare _ _, .ok () => .exchange :: parts
  | parts, .queueDeclare _ _, .ok () => .queue :: parts
  | parts, .queueBind _, .ok () => .binding :: parts
  | parts, _, _ => parts

/-- A process declares the parts of the route, and nothing else, and it
binds what it has declared. -/
def declaring : Program.Protocol LinkOp (fun _ => Except LinkError Unit) (List RoutePart) where
  allow parts
    | .exchangeDeclare name x => name = jobsRoute.exchange ∧ x = jobsRoute.exchangeOptions
    | .queueDeclare name options => name = jobsRoute.queue ∧ options = jobsRoute.queueOptions
    | .queueBind d => d = jobsRoute.binding ∧ .exchange ∈ parts ∧ .queue ∈ parts
    | .basicConsume queue => queue = jobsRoute.queue ∧ .queue ∈ parts
    | _ => True
  rely _ _ _ := True
  next := linkedParts

/-- A process that has succeeded has been told that everything is there. -/
def Declared (parts : List RoutePart) (r : Except LinkError Unit) : Prop :=
  r = .ok () → .binding ∈ parts

section Programs

open Program

/-- `?` -/
theorem obeys_linkOp_bind {parts : List RoutePart} {o : LinkOp}
    {f : Unit → ExceptT LinkError LinkAction Unit} (hallow : declaring.allow parts o)
    (hf : Obeys declaring Declared (linkedParts parts o (.ok ())) (f ()).run) :
    Obeys declaring Declared parts (linkOp o >>= f).run := by
  refine ⟨hallow, fun r _ => ?_⟩
  cases r with
  | ok u => exact hf
  | error e => exact fun h => nomatch h

theorem obeys_linkOp {parts : List RoutePart} {o : LinkOp} (hallow : declaring.allow parts o)
    (hparts : .binding ∈ linkedParts parts o (.ok ())) :
    Obeys declaring Declared parts (linkOp o).run := by
  refine ⟨hallow, fun r _ => ?_⟩
  cases r with
  | ok u => exact fun _ => hparts
  | error e => exact fun h => nomatch h

/-- **Every process keeps to the protocol.** -/
theorem link_declaring (role : Role) (amqpUrl : String) :
    Obeys declaring Declared [] (role.link amqpUrl).run := by
  cases role with
  | service =>
      refine obeys_linkOp_bind trivial (obeys_linkOp_bind trivial ?_)
      refine obeys_linkOp_bind ⟨rfl, rfl⟩ (obeys_linkOp_bind ⟨rfl, rfl⟩ ?_)
      exact obeys_linkOp ⟨rfl, by simp [linkedParts], by simp [linkedParts]⟩ (by simp [linkedParts])
  | worker =>
      rw [Role.link, connectRabbitmq]
      simp only [bind_assoc]
      refine obeys_linkOp_bind trivial (obeys_linkOp_bind trivial ?_)
      refine obeys_linkOp_bind ⟨rfl, rfl⟩ (obeys_linkOp_bind ⟨rfl, rfl⟩ ?_)
      refine obeys_linkOp_bind ⟨rfl, by simp [linkedParts], by simp [linkedParts]⟩ ?_
      refine obeys_linkOp_bind trivial ?_
      exact obeys_linkOp ⟨rfl, by simp [linkedParts]⟩ (by simp [linkedParts])

end Programs

/-! ### What a process may rely on -/

section Operations

variable {b b' : JobBroker}

/-- The broker does what a process asks for that keeps to the protocol. -/
theorem exec_spec {parts : List RoutePart} {o : LinkOp} (hallow : declaring.allow parts o)
    (hagrees : b.Agrees jobsRoute) (hparts : ∀ part ∈ parts, b.HasPart jobsRoute part) :
    (o.exec b).1 = .ok () ∧ MessageBroker.Keeps jobsRoute b (o.exec b).2 ∧
      (∀ part ∈ linkedParts parts o (.ok ()), (o.exec b).2.HasPart jobsRoute part) ∧
      (o.exec b).2.contents queueName = b.contents queueName := by
  have hold : ∀ {b' : JobBroker}, MessageBroker.Keeps jobsRoute b b' →
      ∀ part ∈ parts, b'.HasPart jobsRoute part := fun hkeeps part hpart =>
    hkeeps.part part (hparts part hpart)
  cases o with
  | connect url => exact ⟨rfl, .refl b, hparts, rfl⟩
  | createChannel => exact ⟨rfl, .refl b, hparts, rfl⟩
  | exchangeDeclare name x =>
      obtain ⟨rfl, rfl⟩ := hallow
      obtain ⟨hok, hpart, hkeeps⟩ := MessageBroker.exchangeDeclare_route hagrees
      exact ⟨by simp only [LinkOp.exec, hok, Except.mapError], hkeeps,
        List.forall_mem_cons.mpr ⟨hpart, hold hkeeps⟩, b.contents_exchangeDeclare _ _⟩
  | queueDeclare name options =>
      obtain ⟨rfl, rfl⟩ := hallow
      obtain ⟨hok, hpart, hkeeps⟩ := MessageBroker.queueDeclare_route hagrees
      exact ⟨by simp only [LinkOp.exec, hok, Except.mapError], hkeeps,
        List.forall_mem_cons.mpr ⟨hpart, hold hkeeps⟩, b.contents_queueDeclare _ _⟩
  | queueBind d =>
      obtain ⟨rfl, hexchange, hqueue⟩ := hallow
      obtain ⟨hok, hpart, hkeeps⟩ :=
        MessageBroker.queueBind_route (hparts _ hexchange) (hparts _ hqueue)
      exact ⟨by simp only [LinkOp.exec, hok, Except.mapError], hkeeps,
        List.forall_mem_cons.mpr ⟨hpart, hold hkeeps⟩, b.contents_queueBind _⟩
  | basicConsume queue =>
      obtain ⟨rfl, hqueue⟩ := hallow
      obtain ⟨q, hq, -⟩ := hparts _ hqueue
      exact ⟨by simp only [LinkOp.exec, hq, Option.isSome_some, if_true], .refl b, hparts, rfl⟩

/-- The process goes on from what it has been told is there. -/
def LinkState.Stands (b : JobBroker) : LinkState → Prop
  | down => True
  | linking o k => ∃ parts, Program.Obeys declaring Declared parts (.op o k) ∧
      ∀ part ∈ parts, b.HasPart jobsRoute part
  | linked r => r = .ok () → b.Has jobsRoute

theorem stands_of {parts : List RoutePart} {p : LinkAction (Except LinkError Unit)}
    (h : Program.Obeys declaring Declared parts p)
    (hparts : ∀ part ∈ parts, b.HasPart jobsRoute part) : (LinkState.of p).Stands b := by
  cases p with
  | ret r => exact fun hok => hparts .binding (h hok)
  | op o k => exact ⟨parts, h, hparts⟩

/-- It does, and what waits in its connection is for the queue of the jobs. -/
structure RabbitClient.Stands (b : JobBroker) (client : RabbitClient) : Prop where
  state : client.state.Stands b
  outbox : ∀ m ∈ client.outbox, m = publishFrame m.sender m.number m.job ∧ b.Has jobsRoute

theorem LinkState.Stands.keeps {state : LinkState} (h : state.Stands b)
    (hkeeps : MessageBroker.Keeps jobsRoute b b') : state.Stands b' := by
  cases state with
  | down => trivial
  | linking o k =>
      obtain ⟨parts, hobeys, hparts⟩ := h
      exact ⟨parts, hobeys, fun part hpart => hkeeps.part part (hparts part hpart)⟩
  | linked r => exact fun hok => hkeeps.part .binding (h hok)

theorem RabbitClient.Stands.keeps {client : RabbitClient} (h : client.Stands b)
    (hkeeps : MessageBroker.Keeps jobsRoute b b') : client.Stands b' where
  state := h.state.keeps hkeeps
  outbox m hm := ⟨(h.outbox m hm).1, hkeeps.part .binding (h.outbox m hm).2⟩

end Operations

/-! ### What has been seen -/

def RabbitObs.handing : RabbitObs → Option BasicPublish
  | handed m => some m
  | _ => none

def RabbitObs.arrival : RabbitObs → Option BasicPublish
  | arrived m => some m
  | _ => none

def RabbitObs.removal : RabbitObs → Option BasicPublish
  | removed m => some m
  | _ => none

abbrev handings (seen : List RabbitObs) : List BasicPublish := seen.filterMap RabbitObs.handing

abbrev arrivals (seen : List RabbitObs) : List BasicPublish := seen.filterMap RabbitObs.arrival

abbrev removals (seen : List RabbitObs) : List BasicPublish := seen.filterMap RabbitObs.removal

/-- What is true in every run from `broker₀`. -/
structure Rabbit.Sound (broker₀ : JobBroker) (s : Rabbit) (seen : List RabbitObs) : Prop where
  agrees : s.broker.Agrees jobsRoute
  clients : ∀ c, (s.clients c).Stands s.broker
  unrefused : ∀ c o e, .answered c o (.error (.refused e)) ∉ seen
  bound : ∀ c, .answered c (.queueBind jobsRoute.binding) (.ok ()) ∈ seen → s.broker.Has jobsRoute
  count : ∀ m, (s.broker.contents queueName).count m + (removals seen).count m =
    (broker₀.contents queueName).count m + (arrivals seen).count m
  frames : ∀ m ∈ arrivals seen, m = publishFrame m.sender m.number m.job
  order : ∀ c, ((arrivals seen).filter (·.sender = c) ++ (s.clients c).outbox).Sublist
    ((handings seen).filter (·.sender = c))
  numbers : (handings seen).map BasicPublish.number = List.range s.handed

namespace Rabbit

section Steps

variable {broker₀ : JobBroker} {s s' : Rabbit} {seen obs : List RabbitObs}

/-- An answer that a process may be given. -/
def Answers (b : JobBroker) (o : RabbitObs) : Prop :=
  ∃ c op r, o = .answered c op r ∧ (∀ e, r ≠ .error (.refused e)) ∧
    (op = .queueBind jobsRoute.binding → r = .ok () → b.Has jobsRoute)

/-- Whatever happens between the publishing of a job and its removal. -/
theorem Sound.quiet (h : s.Sound broker₀ seen)
    (hkeeps : MessageBroker.Keeps jobsRoute s.broker s'.broker)
    (hclients : ∀ c, (s'.clients c).Stands s'.broker) (hobs : ∀ o ∈ obs, Answers s'.broker o)
    (hcount : ∀ m, (s'.broker.contents queueName).count m = (s.broker.contents queueName).count m)
    (houtbox : ∀ c, (s'.clients c).outbox.Sublist (s.clients c).outbox)
    (hhanded : s'.handed = s.handed) : s'.Sound broker₀ (seen ++ obs) := by
  have hnone : ∀ f : RabbitObs → Option BasicPublish,
      (∀ c op r, f (.answered c op r) = none) → (seen ++ obs).filterMap f = seen.filterMap f := by
    intro f hf
    have hnil : obs.filterMap f = [] := by
      refine List.filterMap_eq_nil_iff.mpr fun o ho => ?_
      obtain ⟨c, op, r, rfl, -⟩ := hobs o ho
      exact hf c op r
    rw [List.filterMap_append, hnil, List.append_nil]
  have harrivals : arrivals (seen ++ obs) = arrivals seen := hnone _ fun _ _ _ => rfl
  have hhandings : handings (seen ++ obs) = handings seen := hnone _ fun _ _ _ => rfl
  have hremovals : removals (seen ++ obs) = removals seen := hnone _ fun _ _ _ => rfl
  refine ⟨hkeeps.agrees h.agrees, hclients, fun c o e hmem => ?_, fun c hmem => ?_, fun m => ?_, ?_,
    fun c => ?_, ?_⟩
  · rcases List.mem_append.mp hmem with hmem | hmem
    · exact h.unrefused c o e hmem
    · obtain ⟨_, _, r, heq, hrefused, -⟩ := hobs _ hmem
      obtain ⟨-, -, rfl⟩ := RabbitObs.answered.inj heq
      exact hrefused e rfl
  · rcases List.mem_append.mp hmem with hmem | hmem
    · exact hkeeps.part .binding (h.bound c hmem)
    · obtain ⟨_, _, r, heq, -, hbound⟩ := hobs _ hmem
      obtain ⟨-, rfl, rfl⟩ := RabbitObs.answered.inj heq
      exact hbound rfl rfl
  · rw [harrivals, hremovals, hcount]
    exact h.count m
  · rw [harrivals]
    exact h.frames
  · rw [harrivals, hhandings]
    exact ((List.Sublist.refl _).append (houtbox c)).trans (h.order c)
  · rw [hhandings, hhanded]
    exact h.numbers

theorem stands_setClient (hall : ∀ c, (s.clients c).Stands s.broker) {c : ℕ} {client : RabbitClient}
    (hclient : client.Stands s.broker) (c' : ℕ) : ((s.setClient c client).clients c').Stands s.broker := by
  by_cases hc : c' = c
  · subst hc
    rwa [setClient_clients_self]
  · rw [setClient_clients_of_ne s hc]
    exact hall c'

theorem outbox_setClient {c : ℕ} {client : RabbitClient}
    (h : client.outbox.Sublist (s.clients c).outbox) (c' : ℕ) :
    ((s.setClient c client).clients c').outbox.Sublist (s.clients c').outbox := by
  by_cases hc : c' = c
  · subst hc
    rwa [setClient_clients_self]
  · rw [setClient_clients_of_ne s hc]

variable {placement : Placement BasicPublish} {c : ℕ}

/-- A process is somewhere else, and may have less in its connection. -/
theorem Sound.setClient (h : s.Sound broker₀ seen) {client : RabbitClient} (hclient : client.Stands s.broker)
    (houtbox : client.outbox.Sublist (s.clients c).outbox) (hobs : ∀ o ∈ obs, Answers s.broker o) :
    (s.setClient c client).Sound broker₀ (seen ++ obs) :=
  h.quiet (.refl _) (stands_setClient h.clients hclient) hobs (fun _ => rfl) (outbox_setClient houtbox) rfl

/-- The broker has done something that shows nothing. -/
theorem Sound.setBroker (h : s.Sound broker₀ seen) {broker : JobBroker}
    (hkeeps : MessageBroker.Keeps jobsRoute s.broker broker)
    (hcount : ∀ m, (broker.contents queueName).count m = (s.broker.contents queueName).count m) :
    ({ s with broker } : Rabbit).Sound broker₀ seen := by
  have hquiet : ({ s with broker } : Rabbit).Sound broker₀ (seen ++ []) :=
    h.quiet hkeeps (fun c => (h.clients c).keeps hkeeps) (fun _ hmem => nomatch hmem) hcount
      (fun _ => List.Sublist.refl _) rfl
  rwa [List.append_nil] at hquiet

theorem Sound.disconnect (h : s.Sound broker₀ seen) {state : LinkState}
    (hstate : state.Stands s.broker) (hobs : ∀ o ∈ obs, Answers s.broker o) :
    (s.disconnect placement c state).Sound broker₀ (seen ++ obs) := by
  have hkeeps := s.broker.keeps_release jobsRoute placement c
  have hreleased := h.setBroker hkeeps fun m => s.broker.count_release m placement c
  refine hreleased.setClient ⟨hstate.keeps hkeeps, fun _ hm => nomatch hm⟩ (List.nil_sublist _) ?_
  intro o ho
  obtain ⟨c', op, r, rfl, hrefused, hbound⟩ := hobs o ho
  exact ⟨c', op, r, rfl, hrefused, fun hop hr => hkeeps.part .binding (hbound hop hr)⟩

/-- The answer of a connection that is lost. -/
theorem answers_lost (b : JobBroker) (c : ℕ) (o : LinkOp) :
    ∀ x ∈ [RabbitObs.answered c o (.error .lost)], Answers b x := by
  intro x hx
  rw [List.mem_singleton.mp hx]
  exact ⟨c, o, _, rfl, fun e heq => (nomatch heq), fun _ hok => nomatch hok⟩

theorem sound_link (h : s.Sound broker₀ seen) (fault : Fault) :
    (s.link placement c fault).1.Sound broker₀ (seen ++ (s.link placement c fault).2) := by
  unfold link
  have hc := h.clients c
  dsimp only
  split
  · rename_i o k hstate
    have hstands := hc.state
    rw [hstate] at hstands
    obtain ⟨parts, ⟨hallow, hrest⟩, hparts⟩ := hstands
    obtain ⟨hok, hkeeps, hparts', hcontents⟩ := exec_spec hallow h.agrees hparts
    have hlost : (LinkState.of (k (.error .lost))).Stands s.broker := by
      refine stands_of (hrest (.error .lost) trivial) fun part hpart => hparts part ?_
      cases o <;> exact hpart
    have hbroker := h.setBroker hkeeps fun m => by rw [hcontents]
    split
    · refine hbroker.setClient ⟨?_, fun m hm => ?_⟩ (List.Sublist.refl _) fun x hx => ?_
      · rw [hok]
        exact stands_of (hrest (.ok ()) trivial) hparts'
      · exact ⟨(hc.outbox m hm).1, hkeeps.part .binding (hc.outbox m hm).2⟩
      · rw [List.mem_singleton.mp hx, hok]
        refine ⟨c, o, _, rfl, fun e heq => (nomatch heq), fun hop _ => ?_⟩
        subst hop
        exact hparts' .binding List.mem_cons_self
    · exact hbroker.disconnect (hlost.keeps hkeeps) (answers_lost _ c o)
    · exact h.disconnect hlost (answers_lost _ c o)
  · simpa only [List.append_nil] using h

/-- An answer that has been seen before something else is seen. -/
theorem answered_mem {op : LinkOp} {r : Except LinkError Unit}
    (hobs : ∀ c op r, RabbitObs.answered c op r ∉ obs) (h : .answered c op r ∈ seen ++ obs) :
    .answered c op r ∈ seen :=
  (List.mem_append.mp h).resolve_right (hobs c op r)

theorem sound_publish (h : s.Sound broker₀ seen) (job : BackupJob) :
    (s.publish c job).1.Sound broker₀ (seen ++ (s.publish c job).2) := by
  unfold publish
  have hc := h.clients c
  dsimp only
  split
  · rename_i hstate hopen
    have hhas : s.broker.Has jobsRoute := by
      have hstands := hc.state
      rw [hstate] at hstands
      exact hstands rfl
    have harrivals : arrivals (seen ++ [.handed (publishFrame c s.handed job)]) = arrivals seen := by
      simp [arrivals, RabbitObs.arrival]
    have hremovals : removals (seen ++ [.handed (publishFrame c s.handed job)]) = removals seen := by
      simp [removals, RabbitObs.removal]
    have hhandings : handings (seen ++ [.handed (publishFrame c s.handed job)]) =
        handings seen ++ [publishFrame c s.handed job] := by
      simp [handings, RabbitObs.handing]
    have hold : ∀ c' o r, .answered c' o r ∈ seen ++ [.handed (publishFrame c s.handed job)] →
        .answered c' o r ∈ seen := fun c' o r => answered_mem (by simp)
    refine ⟨h.agrees, stands_setClient h.clients ⟨hc.state, fun m hm => ?_⟩,
      fun c' o e hmem => h.unrefused c' o e (hold c' o _ hmem),
      fun c' hmem => h.bound c' (hold c' _ _ hmem), fun m => ?_, ?_, fun c' => ?_, ?_⟩
    · rcases List.mem_append.mp hm with hm | hm
      · exact hc.outbox m hm
      · rw [List.mem_singleton.mp hm]
        exact ⟨rfl, hhas⟩
    · rw [harrivals, hremovals]
      exact h.count m
    · rw [harrivals]
      exact h.frames
    · rw [harrivals, hhandings, List.filter_append]
      by_cases hc' : c' = c
      · subst hc'
        rw [setClient_clients_self, ← List.append_assoc]
        refine (h.order c').append ?_
        simp [publishFrame]
      · rw [setClient_clients_of_ne _ hc']
        exact (h.order c').trans (List.sublist_append_left _ _)
    · rw [hhandings, List.map_append, h.numbers]
      exact List.range_succ.symm
  · simpa only [List.append_nil] using h

theorem Sound.sender_eq (h : s.Sound broker₀ seen) {m : BasicPublish} (hm : m ∈ (s.clients c).outbox) :
    m.sender = c := by
  have hmem := (h.order c).subset (List.mem_append_right _ hm)
  simpa using (List.mem_filter.mp hmem).2

theorem sound_transmit {routing : Routing} (h : s.Sound broker₀ seen) :
    (s.transmit routing placement c).1.Sound broker₀
      (seen ++ (s.transmit routing placement c).2) := by
  unfold transmit
  have hc := h.clients c
  dsimp only
  split
  · simpa only [List.append_nil] using h
  · rename_i m outbox hout
    have hm : m ∈ (s.clients c).outbox := by
      rw [hout]
      exact List.mem_cons_self
    obtain ⟨hframe, hhas⟩ := hc.outbox m hm
    have hexchange : m.exchange = jobsRoute.exchange := by rw [hframe]; rfl
    have hkey : m.routingKey = jobsRoute.key := by rw [hframe]; rfl
    have haccepts : routing.accepts jobsRoute.exchangeOptions.kind jobsRoute.key jobsRoute.key =
        true := by
      have hdirect := routing.direct jobsRoute.key jobsRoute.key
      rwa [decide_eq_true rfl] at hdirect
    have hpublish := fun m' => MessageBroker.publish_route m' hhas haccepts m
    have hkeeps := s.broker.keeps_publish jobsRoute routing.accepts jobsRoute.exchange jobsRoute.key m
    rw [hexchange, hkey]
    generalize s.broker.publish routing.accepts jobsRoute.exchange jobsRoute.key m = answer
      at hpublish hkeeps ⊢
    obtain ⟨r, broker⟩ := answer
    obtain rfl : r = .ok () := (hpublish m).1
    have harrivals : arrivals (seen ++ [.arrived m]) = arrivals seen ++ [m] := by
      simp [arrivals, RabbitObs.arrival]
    have hremovals : removals (seen ++ [.arrived m]) = removals seen := by
      simp [removals, RabbitObs.removal]
    have hhandings : handings (seen ++ [.arrived m]) = handings seen := by
      simp [handings, RabbitObs.handing]
    have hold : ∀ c' o r, .answered c' o r ∈ seen ++ [.arrived m] → .answered c' o r ∈ seen :=
      fun c' o r => answered_mem (by simp)
    refine ⟨hkeeps.agrees h.agrees, ?_, fun c' o e hmem => h.unrefused c' o e (hold c' o _ hmem),
      fun c' hmem => hkeeps.part .binding (h.bound c' (hold c' _ _ hmem)), fun m' => ?_,
      fun m' hm' => ?_, fun c' => ?_, ?_⟩
    · refine stands_setClient (s := { s with broker }) (fun c' => (h.clients c').keeps hkeeps)
        ⟨hc.state.keeps hkeeps, fun m' hm' => ?_⟩
      have hmem := hc.outbox m' (by rw [hout]; exact List.mem_cons_of_mem _ hm')
      exact ⟨hmem.1, hkeeps.part .binding hmem.2⟩
    · have hcount := h.count m'
      have hpushed : (broker.contents queueName).count m' =
          (s.broker.contents queueName).count m' + [m].count m' := (hpublish m').2
      rw [harrivals, hremovals, List.count_append, setClient_broker, hpushed]
      omega
    · rw [harrivals] at hm'
      rcases List.mem_append.mp hm' with hm' | hm'
      · exact h.frames m' hm'
      · rwa [List.mem_singleton.mp hm']
    · rw [harrivals, hhandings, List.filter_append]
      have horder := h.order c'
      have hsender := h.sender_eq hm
      by_cases hc' : c' = c
      · subst hc'
        rw [hout] at horder
        rw [setClient_clients_self]
        simpa [hsender] using horder
      · rw [setClient_clients_of_ne _ hc']
        simpa [hsender, Ne.symm hc'] using horder
    · rw [hhandings]
      exact h.numbers

theorem sound_settle (h : s.Sound broker₀ seen) (i : ℕ) (d : Decision) :
    (s.settle placement c i d).1.Sound broker₀ (seen ++ (s.settle placement c i d).2) := by
  have hkeeps := s.broker.keeps_settle jobsRoute placement queueName c i (d = .nack true)
  have hcount : ∀ m,
      ((s.broker.settle placement queueName c i (d = .nack true)).1.contents queueName).count m +
        (s.broker.settle placement queueName c i (d = .nack true)).2.count m =
          (s.broker.contents queueName).count m := fun m =>
    MessageBroker.count_settle m placement c i _
  unfold settle
  generalize s.broker.settle placement queueName c i (d = .nack true) = answer at hkeeps hcount ⊢
  obtain ⟨broker, removed⟩ := answer
  have harrivals : arrivals (seen ++ removed.map .removed) = arrivals seen := by
    simp [arrivals, RabbitObs.arrival, Function.comp_def]
  have hremovals : removals (seen ++ removed.map .removed) = removals seen ++ removed := by
    simp [removals, RabbitObs.removal, Function.comp_def]
  have hhandings : handings (seen ++ removed.map .removed) = handings seen := by
    simp [handings, RabbitObs.handing, Function.comp_def]
  have hold : ∀ c' o r, .answered c' o r ∈ seen ++ removed.map .removed → .answered c' o r ∈ seen :=
    fun c' o r => answered_mem (by simp)
  refine ⟨hkeeps.agrees h.agrees, fun c' => (h.clients c').keeps hkeeps,
    fun c' o e hmem => h.unrefused c' o e (hold c' o _ hmem),
    fun c' hmem => hkeeps.part .binding (h.bound c' (hold c' _ _ hmem)), fun m => ?_, ?_, fun c' => ?_, ?_⟩
  · have hbefore := h.count m
    have hsettled : (broker.contents queueName).count m + removed.count m =
        (s.broker.contents queueName).count m := hcount m
    rw [harrivals, hremovals, List.count_append]
    show (broker.contents queueName).count m + _ = _
    omega
  · rw [harrivals]
    exact h.frames
  · rw [harrivals, hhandings]
    exact h.order c'
  · rw [hhandings]
    exact h.numbers

/-- What the queue of the jobs is responsible for outlives a restart. -/
theorem Sound.persistent (h : s.Sound broker₀ seen)
    (hpersistent : ∀ m ∈ broker₀.contents queueName, m.persistent = true) :
    ∀ m ∈ s.broker.contents queueName, m.persistent = true := by
  intro m hm
  have hcount := h.count m
  have hpos := List.count_pos_iff.mpr hm
  by_cases harrived : m ∈ arrivals seen
  · rw [h.frames m harrived]
    rfl
  · rw [List.count_eq_zero.mpr harrived] at hcount
    exact hpersistent m (List.count_pos_iff.mp (by omega))

theorem sound_restart (h : s.Sound broker₀ seen)
    (hpersistent : ∀ m ∈ broker₀.contents queueName, m.persistent = true) :
    (s.restart placement).Sound broker₀ seen := by
  have hkeeps := s.broker.keeps_restart jobsRoute jobsRoute_durable placement BasicPublish.persistent
  have hquiet : (s.restart placement).Sound broker₀ (seen ++ []) :=
    h.quiet hkeeps (fun c => ⟨(h.clients c).state.keeps hkeeps, fun _ hm => nomatch hm⟩)
      (fun _ hmem => nomatch hmem)
      (fun m => MessageBroker.count_restart m placement
        (fun q hq => by rw [h.agrees.queue q hq]; rfl) (h.persistent hpersistent))
      (fun _ => List.nil_sublist _) rfl
  rwa [List.append_nil] at hquiet

/-- **What a step preserves.** -/
theorem sound_step {routing : Routing} {roles : ℕ → Role} {amqpUrl : ℕ → String}
    (hpersistent : ∀ m ∈ broker₀.contents queueName, m.persistent = true) (h : s.Sound broker₀ seen)
    (e : RabbitEvent) : ((rabbit routing placement roles amqpUrl).step s e).1.Sound broker₀
      (seen ++ ((rabbit routing placement roles amqpUrl).step s e).2) := by
  cases e with
  | start c =>
      simp only [rabbit]
      split
      · refine h.setClient ⟨?_, fun _ hm => nomatch hm⟩ (List.nil_sublist _) fun _ hmem => nomatch hmem
        exact stands_of (link_declaring (roles c) (amqpUrl c)) fun _ hpart => nomatch hpart
      · simpa only [List.append_nil] using h
  | link c fault => exact sound_link h fault
  | publish c job => exact sound_publish h job
  | transmit c => exact sound_transmit h
  | lose c => exact h.disconnect (h.clients c).state fun _ hmem => nomatch hmem
  | stop c => exact h.disconnect trivial fun _ hmem => nomatch hmem
  | deliver c =>
      simp only [rabbit, deliver, List.append_nil]
      split
      · exact h.setBroker (s.broker.keeps_deliver jobsRoute queueName c)
          fun m => s.broker.count_deliver m queueName c
      · exact h
  | settle c i d => exact sound_settle h i d
  | restart =>
      simp only [rabbit, List.append_nil]
      exact sound_restart h hpersistent

end Steps

end Rabbit

/-! ### Runs -/

section Runs

variable (routing : Routing) (placement : Placement BasicPublish) (roles : ℕ → Role)
  (amqpUrl : ℕ → String) {broker : JobBroker}

theorem run_sound_rabbit (hagrees : broker.Agrees jobsRoute)
    (hpersistent : ∀ m ∈ broker.contents queueName, m.persistent = true) (es : List RabbitEvent) :
    ((rabbit routing placement roles amqpUrl).run (.initial broker) es).Sound broker
      ((rabbit routing placement roles amqpUrl).trace (.initial broker) es) := by
  induction es using Machine.run_induction with
  | hnil =>
      exact {
        agrees := hagrees
        clients := fun c => ⟨trivial, fun _ hm => nomatch hm⟩
        unrefused := fun _ _ _ hmem => nomatch hmem
        bound := fun _ hmem => nomatch hmem
        count := fun m => rfl
        frames := fun _ hm => nomatch hm
        order := fun c => List.Sublist.refl _
        numbers := rfl }
  | hsnoc es e ih =>
      rw [Machine.run_concat, Machine.trace_concat]
      exact Rabbit.sound_step hpersistent ih e

/-- **Jobs are accounted for.** Any number of services and workers connect,
publish, consume, lose their connections and end, and the broker is restarted
at any moment. If nobody else has declared the exchange or the queue in another
way, the broker refuses no declaration, and once one process has declared
everything, it is there for good. Every job that arrives is put on the queue
once, and is there, ready or with a consumer, until a consumer settles it for
good. The jobs of a process arrive at most once, and in the order in which it
has handed them over. -/
theorem jobs_accounted (hagrees : broker.Agrees jobsRoute)
    (hpersistent : ∀ m ∈ broker.contents queueName, m.persistent = true) (es : List RabbitEvent) :
    let s := (rabbit routing placement roles amqpUrl).run (.initial broker) es
    let seen := (rabbit routing placement roles amqpUrl).trace (.initial broker) es
    (∀ c o e, .answered c o (.error (.refused e)) ∉ seen) ∧
    (∀ c, .answered c (.queueBind ⟨exchangeName, queueName, routingKey⟩) (.ok ()) ∈ seen →
      s.broker.Has jobsRoute) ∧
    (∀ m, (s.broker.contents queueName).count m + (removals seen).count m =
      (broker.contents queueName).count m + (arrivals seen).count m) ∧
    (∀ c, ((arrivals seen).filter (·.sender = c)).Sublist ((handings seen).filter (·.sender = c))) ∧
    (arrivals seen).Nodup := by
  intro s seen
  have h : s.Sound broker seen := run_sound_rabbit routing placement roles amqpUrl hagrees hpersistent es
  have horder : ∀ c, ((arrivals seen).filter (·.sender = c)).Sublist
      ((handings seen).filter (·.sender = c)) := fun c =>
    (List.sublist_append_left _ _).trans (h.order c)
  refine ⟨h.unrefused, h.bound, h.count, horder, ?_⟩
  have hnodup : (handings seen).Nodup := by
    refine List.Nodup.of_map BasicPublish.number ?_
    rw [h.numbers]
    exact List.nodup_range
  refine List.nodup_iff_count_le_one.mpr fun m => ?_
  calc (arrivals seen).count m = ((arrivals seen).filter (·.sender = m.sender)).count m :=
        (List.count_filter (by simp)).symm
    _ ≤ ((handings seen).filter (·.sender = m.sender)).count m := (horder m.sender).count_le m
    _ ≤ (handings seen).count m := List.filter_sublist.count_le m
    _ ≤ 1 := List.nodup_iff_count_le_one.mp hnodup m

end Runs

/-! ### A restart in between -/

section Workday

def directOnly : Routing where
  accepts
    | .direct, binding, key => binding = key
    | _, _, _ => false
  direct _ _ := rfl

def inFront : Placement BasicPublish := ⟨(· ++ ·), fun _ _ => .refl _⟩

def nightJob : BackupJob := ⟨⟨7⟩, ⟨1⟩, "/data", false⟩

/-- A service publishes a job, and the broker is restarted while a worker has
it. -/
def workday : List RabbitEvent :=
  .start 0 :: List.replicate 5 (.link 0 .none) ++ .start 1 :: List.replicate 7 (.link 1 .none) ++
    [.publish 0 nightJob, .transmit 0, .deliver 1, .restart]

def officeRoles : ℕ → Role
  | 0 => .service
  | _ => .worker

def office : Machine Rabbit RabbitEvent RabbitObs :=
  rabbit directOnly inFront officeRoles fun _ => "amqp://localhost"

def freshBroker : JobBroker := ⟨fun _ => none, fun _ => none, []⟩

theorem jobs_accounted_workday :
    (office.run (.initial freshBroker) workday).broker.Has jobsRoute ∧
      ((office.run (.initial freshBroker) workday).broker.contents queueName).count
        (publishFrame 0 0 nightJob) = 1 := by
  have hagrees : freshBroker.Agrees jobsRoute := ⟨fun _ h => (nomatch h), fun _ h => (nomatch h)⟩
  obtain ⟨-, hbound, hcount, -⟩ := jobs_accounted directOnly inFront officeRoles
    (fun _ => "amqp://localhost") hagrees (fun _ hm => nomatch hm) workday
  refine ⟨hbound 0 (by decide), ?_⟩
  have hjob := hcount (publishFrame 0 0 nightJob)
  have harrived : (arrivals (office.trace (.initial freshBroker) workday)).count
      (publishFrame 0 0 nightJob) = 1 := by decide
  have hremoved : (removals (office.trace (.initial freshBroker) workday)).count
      (publishFrame 0 0 nightJob) = 0 := by decide
  have hempty : (freshBroker.contents queueName).count (publishFrame 0 0 nightJob) = 0 := rfl
  change (((office.run (.initial freshBroker) workday).broker.contents queueName).count
    (publishFrame 0 0 nightJob)) + (removals (office.trace (.initial freshBroker) workday)).count
      (publishFrame 0 0 nightJob) = _ + (arrivals (office.trace (.initial freshBroker) workday)).count
        (publishFrame 0 0 nightJob) at hjob
  omega

end Workday

end BackupService
