import BackupService.Jobs

/-!
A job on its way from a replica to the broker.

`publish_job` hands a frame to the connection of its replica, and it is told
of a success as soon as that is done: the channel is not in confirm mode, so
the second `await` waits for nothing. The frame reaches the broker later,
and if there is no binding, or no queue, by then, the broker drops it
without a word. If the connection is lost first, it never gets there.

A run shows every frame that is handed over, every frame that is put on the
queue, and every response.
-/

namespace BackupService

open Lib

/-! ### The client and the broker -/

/-- A published job. Frames are numbered in the order they are handed over. -/
structure Frame where
  number : ℕ
  request : ReqId
  job : BackupJob
  deriving DecidableEq, Repr

/-- The connection of a replica, and the frames it has yet to transmit. -/
structure Connection where
  connected : Bool := true
  outbox : List Frame := []
  deriving DecidableEq, Repr

/-- `publish_job`. Without `confirm_select` the confirmation it awaits is
`NotRequested`, and there at once. -/
def publishJob (channel : Connection) (frame : Frame) : Except LapinError Unit × Connection :=
  if channel.connected then (.ok (), { channel with outbox := channel.outbox ++ [frame] })
  else (.error .failed, channel)

theorem publishJob_connected {channel : Connection} (h : channel.connected = true) (frame : Frame) :
    publishJob channel frame = (.ok (), { channel with outbox := channel.outbox ++ [frame] }) :=
  if_pos h

theorem publishJob_lost {channel : Connection} (h : channel.connected = false) (frame : Frame) :
    publishJob channel frame = (.error .failed, channel) :=
  if_neg (by simp [h])

/-- What `connect_rabbitmq` declares at the broker; the exchange stays. -/
structure Topology where
  queue : Bool := true
  binding : Bool := true
  deriving DecidableEq, Repr

/-- A message with the routing key of the jobs ends up in the queue. -/
def Topology.routes (t : Topology) : Bool := t.queue && t.binding

/-- The service, its connections to the broker, and the broker. -/
structure Amqp where
  api : State
  connections : ℕ → Connection
  topology : Topology
  /-- The number of frames so far. -/
  handed : ℕ

inductive AmqpEvent
  | api (e : Event)
  /-- The next frame of a replica reaches the broker. -/
  | transmit (replica : ℕ)
  /-- The connection of a replica is lost, with all that waits in it. -/
  | lose (replica : ℕ)
  /-- `Connection::connect` -/
  | connect (replica : ℕ)
  /-- `queue_declare` -/
  | queueDeclare
  /-- `queue_bind` -/
  | queueBind
  | queueUnbind
  | queueDelete
  /-- What consumers and operators do to the messages in the queue. -/
  | consume (queue : List Message)

inductive AmqpObs
  | handed (frame : Frame)
  | stored (frame : Frame)
  | responded (id : ReqId) (request : Request) (response : Response)
  deriving DecidableEq

/-- The replica and the job of a thread that is about to publish. -/
def State.publishing (s : State) (id : ReqId) : Option (ℕ × BackupJob) :=
  match s.inflight id with
  | none => none
  | some th =>
      match th.prog with
      | .op (.publish job) _ => some (th.replica, job)
      | _ => none

def Obs.responses : Obs → List AmqpObs
  | .responded id request response => [.responded id request response]
  | _ => []

namespace Amqp

def setConnection (s : Amqp) (replica : ℕ) (c : Connection) : Amqp :=
  { s with connections := Function.update s.connections replica c }

def setQueue (s : Amqp) (queue : List Message) : Amqp :=
  { s with api.store.queue := queue }

/-- A thread moves; if it publishes, it does so over the connection of its
replica. -/
def stepThread (s : Amqp) (id : ReqId) (env : Env) : Amqp × List AmqpObs :=
  match s.api.publishing id with
  | none =>
      let (api, obs) := s.api.stepThread id env
      ({ s with api }, obs.flatMap Obs.responses)
  | some (replica, job) =>
      let frame : Frame := ⟨s.handed, id, job⟩
      let (result, connection) := publishJob (s.connections replica) frame
      let (api, _) := s.api.stepThread id { env with publish := ⟨false, result.isOk⟩ }
      ({ s with api, handed := s.handed + 1 }.setConnection replica connection,
        if result.isOk then [.handed frame] else [])

def transmit (s : Amqp) (replica : ℕ) : Amqp × List AmqpObs :=
  let c := s.connections replica
  match c.outbox with
  | [] => (s, [])
  | frame :: outbox =>
      let s' := s.setConnection replica { c with outbox }
      if s.topology.routes then
        (s'.setQueue (s.api.store.queue ++ [.job frame.job]), [.stored frame])
      else (s', [])

end Amqp

/-- The way to the broker as a machine. -/
def amqp (uuid : UuidParser) : Machine Amqp AmqpEvent AmqpObs where
  step s
    | .api (.step id env) => s.stepThread id env
    | .api e =>
        let (api, obs) := (system uuid).step s.api e
        ({ s with api }, obs.flatMap Obs.responses)
    | .transmit replica => s.transmit replica
    | .lose replica => (s.setConnection replica { connected := false, outbox := [] }, [])
    | .connect replica => (s.setConnection replica { s.connections replica with connected := true }, [])
    | .queueDeclare => ({ s with topology.queue := true }, [])
    | .queueBind => ({ s with topology.binding := s.topology.queue }, [])
    | .queueUnbind => ({ s with topology.binding := false }, [])
    | .queueDelete => ({ s with topology := ⟨false, false⟩ }.setQueue [], [])
    | .consume queue => (if s.topology.queue then s.setQueue queue else s, [])

/-- Every replica has run `connect_rabbitmq`, and nothing has happened yet. -/
def Amqp.initial (db : Table) (replicas : ℕ → Replica) : Amqp where
  api := .initial db replicas
  connections := fun _ => {}
  topology := {}
  handed := 0

/-! ### Accepted jobs -/

/-- Among the frames of a request, `frame` is the last one that was handed
over; `since` is what has been seen after it. -/
def LastFrame (id : ReqId) (frame : Frame) (since seen : List AmqpObs) : Prop :=
  frame.request = id ∧ (∃ before, seen = before ++ .handed frame :: since) ∧
    ∀ frame', .handed frame' ∈ since → frame'.request ≠ id

/-- Whenever an enqueue request is answered with 202, the job it has
published last has been put on the queue, and it is the job of the backup
that was asked for. -/
def AcceptedStored (seen : List AmqpObs) : Prop :=
  ∀ before id request response, before ++ [.responded id request response] <+: seen →
    response.status = 202 → ∃ frame since, LastFrame id frame since before ∧
      request = .enqueue frame.job.backupId ∧ .stored frame ∈ since

/-- A frame of a request in flight is neither transmitted while the queue or
its binding is missing, nor lost with its connection, and no request comes
to its answer while a frame of it waits to be transmitted. -/
def Delivers (s : Amqp) : AmqpEvent → Prop
  | .transmit replica => ∀ frame outbox, (s.connections replica).outbox = frame :: outbox →
      s.topology.routes = true ∨ s.api.inflight frame.request = none
  | .lose replica => ∀ frame ∈ (s.connections replica).outbox, s.api.inflight frame.request = none
  | .api (.step id _) => ∀ th response, s.api.inflight id = some th → th.prog = .ret response →
      ∀ replica, ∀ frame ∈ (s.connections replica).outbox, frame.request ≠ id
  | _ => True

/-- The last frame of the request carries the job; it is waiting, or it has
been put on the queue. -/
def Amqp.Carries (s : Amqp) (seen : List AmqpObs) (id : ReqId) (job : BackupJob) : Prop :=
  ∃ frame since, LastFrame id frame since seen ∧ frame.job = job ∧
    (.stored frame ∈ since ∨ ∃ replica, frame ∈ (s.connections replica).outbox)

/-- Every request in flight that has published its job is carried. -/
def Amqp.Carried (s : Amqp) (seen : List AmqpObs) : Prop :=
  ∀ id th, s.api.inflight id = some th →
    ∃ g, th.Posting g ∧ ∀ job, g = .posted job → s.Carries seen id job

section Steps

variable {s s' : Amqp} {seen obs : List AmqpObs} {id : ReqId} {job : BackupJob}

theorem LastFrame.append {frame : Frame} {since : List AmqpObs}
    (h : LastFrame id frame since seen) (hobs : ∀ f, .handed f ∈ obs → f.request ≠ id) :
    LastFrame id frame (since ++ obs) (seen ++ obs) := by
  obtain ⟨hid, ⟨before, rfl⟩, hlast⟩ := h
  refine ⟨hid, ⟨before, by simp⟩, fun frame' hmem => ?_⟩
  rcases List.mem_append.mp hmem with hmem | hmem
  · exact hlast frame' hmem
  · exact hobs frame' hmem

/-- A job stays carried as long as its request hands over no other one, and
its frame is not taken out of an outbox without being stored. -/
theorem Amqp.Carries.step (h : s.Carries seen id job)
    (hobs : ∀ f, .handed f ∈ obs → f.request ≠ id)
    (hout : ∀ replica, ∀ f ∈ (s.connections replica).outbox, f.request = id →
      .stored f ∈ obs ∨ ∃ replica', f ∈ (s'.connections replica').outbox) :
    s'.Carries (seen ++ obs) id job := by
  obtain ⟨frame, since, hlast, hjob, hwhere⟩ := h
  refine ⟨frame, since ++ obs, hlast.append hobs, hjob, ?_⟩
  rcases hwhere with hstored | ⟨replica, hmem⟩
  · exact .inl (List.mem_append_left _ hstored)
  · rcases hout replica frame hmem hlast.1 with hstored | hmem'
    · exact .inl (List.mem_append_right _ hstored)
    · exact .inr hmem'

/-- Events at which no thread moves. -/
theorem Amqp.Carried.of_inflight_eq (h : s.Carried seen) (hinflight : s'.api.inflight = s.api.inflight)
    (hobs : ∀ f, .handed f ∉ obs)
    (hout : ∀ replica, ∀ f ∈ (s.connections replica).outbox, s.api.inflight f.request ≠ none →
      .stored f ∈ obs ∨ ∃ replica', f ∈ (s'.connections replica').outbox) :
    s'.Carried (seen ++ obs) := by
  intro id th hth
  rw [hinflight] at hth
  obtain ⟨g, hg, hjob⟩ := h id th hth
  refine ⟨g, hg, fun job hpost => (hjob job hpost).step (fun f hf => (hobs f hf).elim) ?_⟩
  intro replica f hf hid
  exact hout replica f hf (by rw [hid, hth]; exact Option.some_ne_none _)

theorem handed_not_mem_responses {e : List Obs} {f : Frame} :
    AmqpObs.handed f ∉ e.flatMap Obs.responses := by
  intro hmem
  obtain ⟨o, -, ho⟩ := List.mem_flatMap.mp hmem
  cases o with
  | performed id o answer => cases ho
  | responded id request response => simp [Obs.responses] at ho
  | called call result => cases ho

theorem publishing_eq_some {s : State} {id : ReqId} {replica : ℕ} {job : BackupJob}
    (h : s.publishing id = some (replica, job)) :
    ∃ th k, s.inflight id = some th ∧ th.prog = .op (.publish job) k ∧ th.replica = replica := by
  unfold State.publishing at h
  split at h
  · cases h
  · rename_i th hth
    split at h
    · rename_i job' k hprog
      obtain ⟨rfl, rfl⟩ := Prod.mk.inj (Option.some.inj h)
      exact ⟨th, k, hth, hprog, rfl⟩
    · cases h

theorem publishing_of_prog {s : State} {id : ReqId} {th : Thread} {job : BackupJob}
    {k : Except LapinError Unit → Action Response} (hth : s.inflight id = some th)
    (hprog : th.prog = .op (.publish job) k) : s.publishing id = some (th.replica, job) := by
  simp only [State.publishing, hth, hprog]

/-- Only publishing brings a job into the bookkeeping. -/
theorem after_ne_posted {o : Op} {r : o.Answer} (ho : ∀ job, o ≠ .publish job) (job : BackupJob) :
    Post.after o r ≠ .posted job := by
  intro h
  unfold Post.after at h
  split at h
  · split at h <;> cases h
  · exact ho _ rfl
  · cases h

/-- An event of the service at which nothing is published. -/
theorem carried_of_not_publishing {uuid : UuidParser} {e : Event} (h : s.Carried seen)
    (hstep : ∀ id env, e = .step id env → s.api.publishing id = none)
    (hobs : ∀ f, .handed f ∉ obs) (hapi : s'.api = ((system uuid).step s.api e).1)
    (hconn : s'.connections = s.connections) : s'.Carried (seen ++ obs) := by
  intro id th hth
  rw [hapi] at hth
  obtain hold | ⟨replica, seq, claims, request, oracle, -, -, rfl⟩ |
    ⟨env, th₀, o, k, rfl, hold, hprog, rfl⟩ := step_inflight hth
  · obtain ⟨g, hg, hjob⟩ := h id th hold
    refine ⟨g, hg, fun job hpost => (hjob job hpost).step (fun f hf => (hobs f hf).elim) ?_⟩
    intro replica f hf _
    exact .inr ⟨replica, by rwa [hconn]⟩
  · exact ⟨.nothing, newThread_posting .., fun job hjob => nomatch hjob⟩
  · obtain ⟨g, hg, -⟩ := h id th₀ hold
    refine ⟨_, hg.next hprog (exec_rely_posting g o), fun job hpost => ?_⟩
    refine (after_ne_posted (fun job' ho => ?_) job hpost).elim
    subst ho
    have hnone := hstep id env rfl
    rw [publishing_of_prog hold hprog] at hnone
    cases hnone

/-- A thread publishes its job. -/
theorem carried_of_publishing {id : ReqId} {env : Env} {replica : ℕ} {job : BackupJob}
    (h : s.Carried seen) (hpub : s.api.publishing id = some (replica, job)) :
    (s.stepThread id env).1.Carried (seen ++ (s.stepThread id env).2) := by
  obtain ⟨th, k, hth, hprog, rfl⟩ := publishing_eq_some hpub
  simp only [Amqp.stepThread, hpub, State.stepThread_op hth hprog]
  intro id' th' hth'
  simp only [Amqp.setConnection] at hth'
  by_cases hid : id' = id
  · subst hid
    rw [State.setThread_inflight_self] at hth'
    obtain rfl := Option.some.inj hth'
    obtain ⟨g, hg, -⟩ := h id' th hth
    refine ⟨_, hg.next hprog (exec_rely_posting g (.publish job)), fun job' hpost => ?_⟩
    cases hconn : (s.connections th.replica).connected with
    | false =>
        rw [publishJob_lost hconn] at hpost
        cases hpost
    | true =>
        rw [publishJob_connected hconn] at hpost ⊢
        obtain rfl : job = job' := Post.posted.inj hpost
        refine ⟨⟨s.handed, id', job⟩, [], ⟨rfl, ⟨seen, rfl⟩, fun _ hmem => nomatch hmem⟩, rfl,
          .inr ⟨th.replica, ?_⟩⟩
        simp [Amqp.setConnection]
  · rw [State.setThread_inflight_of_ne _ _ hid] at hth'
    obtain ⟨g, hg, hjob⟩ := h id' th' hth'
    refine ⟨g, hg, fun job' hpost => (hjob job' hpost).step (fun f hf => ?_) fun replica f hf _ => ?_⟩
    · split at hf
      · obtain rfl := AmqpObs.handed.inj (List.mem_singleton.mp hf)
        exact fun heq => hid heq.symm
      · cases hf
    · refine .inr ⟨replica, ?_⟩
      by_cases hr : replica = th.replica
      · subst hr
        simp only [Amqp.setConnection, Function.update_self, publishJob]
        split
        · exact List.mem_append_left _ hf
        · exact hf
      · simpa only [Amqp.setConnection, Function.update_of_ne hr] using hf

theorem carried_transmit {replica : ℕ} (h : s.Carried seen)
    (hdeliver : ∀ frame outbox, (s.connections replica).outbox = frame :: outbox →
      s.topology.routes = true ∨ s.api.inflight frame.request = none) :
    (s.transmit replica).1.Carried (seen ++ (s.transmit replica).2) := by
  unfold Amqp.transmit
  cases hout : (s.connections replica).outbox with
  | nil => simpa only [hout, List.append_nil] using h
  | cons frame outbox =>
      have hrest : ∀ r, ∀ f ∈ (s.connections r).outbox, f = frame ∨
          f ∈ ((s.setConnection replica { s.connections replica with outbox }).connections r).outbox := by
        intro r f hf
        by_cases hr : r = replica
        · subst hr
          rw [hout] at hf
          simpa [Amqp.setConnection] using hf
        · exact .inr (by simpa only [Amqp.setConnection, Function.update_of_ne hr] using hf)
      simp only [hout]
      cases hroutes : s.topology.routes with
      | true =>
          refine h.of_inflight_eq rfl (fun f => by simp) fun r f hf _ => ?_
          rcases hrest r f hf with rfl | hf'
          · exact .inl List.mem_cons_self
          · exact .inr ⟨r, hf'⟩
      | false =>
          refine h.of_inflight_eq rfl (fun f => by simp) fun r f hf hid => ?_
          rcases hrest r f hf with rfl | hf'
          · rcases hdeliver f outbox hout with hroute | hnone
            · rw [hroutes] at hroute
              cases hroute
            · exact (hid hnone).elim
          · exact .inr ⟨r, hf'⟩

end Steps

section Main

variable {uuid : UuidParser} {s : Amqp} {seen : List AmqpObs} {e : AmqpEvent}

theorem step_carried (h : s.Carried seen) (he : Delivers s e) :
    ((amqp uuid).step s e).1.Carried (seen ++ ((amqp uuid).step s e).2) := by
  have hkeep : ∀ s' : Amqp, s'.api.inflight = s.api.inflight → s'.connections = s.connections →
      s'.Carried (seen ++ []) := by
    intro s' hinflight hconn
    refine h.of_inflight_eq hinflight (fun f => by simp) fun replica f hf _ => ?_
    exact .inr ⟨replica, by rwa [hconn]⟩
  cases e with
  | api e =>
      have hother : (∀ id env, e = .step id env → s.api.publishing id = none) →
          Amqp.Carried { s with api := ((system uuid).step s.api e).1 }
            (seen ++ ((system uuid).step s.api e).2.flatMap Obs.responses) := fun hstep =>
        carried_of_not_publishing h hstep (fun f => handed_not_mem_responses) rfl rfl
      cases e with
      | step id env =>
          cases hpub : s.api.publishing id with
          | none =>
              have hstep := hother fun id' env' heq => by
                obtain ⟨rfl, rfl⟩ := Event.step.inj heq
                exact hpub
              simpa only [amqp, Amqp.stepThread, hpub, step_step] using hstep
          | some post => exact carried_of_publishing h hpub
      | start | drop | rpc | configUpdate | expire | advance => exact hother fun _ _ heq => nomatch heq
  | transmit replica => exact carried_transmit h he
  | lose replica =>
      refine h.of_inflight_eq rfl (fun f => by simp [amqp]) fun r f hf hid => ?_
      by_cases hr : r = replica
      · subst hr
        exact (hid (he f hf)).elim
      · exact .inr ⟨r, by simpa only [amqp, Amqp.setConnection, Function.update_of_ne hr] using hf⟩
  | connect replica =>
      refine h.of_inflight_eq rfl (fun f => by simp [amqp]) fun r f hf _ => ?_
      refine .inr ⟨r, ?_⟩
      by_cases hr : r = replica
      · subst hr
        simpa only [amqp, Amqp.setConnection, Function.update_self] using hf
      · simpa only [amqp, Amqp.setConnection, Function.update_of_ne hr] using hf
  | queueDeclare | queueBind | queueUnbind | queueDelete => exact hkeep _ rfl rfl
  | consume queue =>
      refine hkeep _ ?_ ?_ <;>
      · simp only [amqp]
        split <;> rfl

theorem AcceptedStored.append {obs : List AmqpObs} (h : AcceptedStored seen)
    (hlen : obs.length ≤ 1)
    (hobs : ∀ id request response, .responded id request response ∈ obs → response.status = 202 →
      ∃ frame since, LastFrame id frame since seen ∧ request = .enqueue frame.job.backupId ∧
        .stored frame ∈ since) : AcceptedStored (seen ++ obs) := by
  intro before id request response hpre hstatus
  rcases obs with _ | ⟨o, _ | ⟨o', obs⟩⟩
  · exact h before id request response (by simpa using hpre) hstatus
  · rcases List.prefix_concat_iff.mp hpre with heq | hold
    · obtain ⟨rfl, ho⟩ := List.append_inj' heq rfl
      obtain rfl := List.singleton_inj.mp ho
      exact hobs id request response List.mem_cons_self hstatus
    · exact h before id request response hold hstatus
  · simp only [List.length_cons] at hlen
    omega

theorem stepThread_obs_length (s : State) (id : ReqId) (env : Env) :
    (s.stepThread id env).2.length ≤ 1 := by
  cases hth : s.inflight id with
  | none => simp [State.stepThread_none hth]
  | some th =>
      cases hprog : th.prog with
      | ret response => simp [State.stepThread_ret hth hprog]
      | op o k => simp [State.stepThread_op hth hprog]

theorem responses_length (o : Obs) : o.responses.length ≤ 1 := by
  cases o <;> simp [Obs.responses]

theorem flatMap_responses_length {obs : List Obs} (h : obs.length ≤ 1) :
    (obs.flatMap Obs.responses).length ≤ 1 := by
  rcases obs with _ | ⟨o, _ | ⟨o', obs⟩⟩
  · simp
  · simpa using responses_length o
  · simp only [List.length_cons] at h
    omega

theorem step_obs_length (s : Amqp) (e : AmqpEvent) : ((amqp uuid).step s e).2.length ≤ 1 := by
  cases e with
  | api e =>
      cases e with
      | step id env =>
          simp only [amqp, Amqp.stepThread]
          split
          · exact flatMap_responses_length (stepThread_obs_length ..)
          · dsimp only
            split <;> simp
      | start | drop | configUpdate | expire | advance => simp [amqp, system]
      | rpc call oracle env => simp [amqp, system, Obs.responses]
  | transmit replica =>
      simp only [amqp, Amqp.transmit]
      split
      · simp
      · split <;> simp
  | lose | connect | queueDeclare | queueBind | queueUnbind | queueDelete | consume => simp [amqp]

/-- A response is shown by the last step of its thread, and none of its
frames is waiting then. -/
theorem responded_mem_step {id : ReqId} {request : Request} {response : Response}
    (h : .responded id request response ∈ ((amqp uuid).step s e).2) :
    ∃ env th, e = .api (.step id env) ∧ s.api.inflight id = some th ∧ th.request = request ∧
      th.prog = .ret response := by
  have hserved : ∀ {e' : Event}, .responded id request response ∈
      ((system uuid).step s.api e').2.flatMap Obs.responses →
        ∃ env th, e' = .step id env ∧ s.api.inflight id = some th ∧ th.request = request ∧
          th.prog = .ret response := by
    intro e' hmem
    obtain ⟨o, ho, hmem⟩ := List.mem_flatMap.mp hmem
    cases o with
    | responded id' request' response' =>
        obtain ⟨rfl, rfl, rfl⟩ := AmqpObs.responded.inj (List.mem_singleton.mp hmem)
        exact step_responded ho
    | performed id' o answer => cases hmem
    | called call result => cases hmem
  have hother : ∀ {e' : Event}, .responded id request response ∈
      ((system uuid).step s.api e').2.flatMap Obs.responses →
        ∃ env th, AmqpEvent.api e' = .api (.step id env) ∧ s.api.inflight id = some th ∧
          th.request = request ∧ th.prog = .ret response := by
    intro e' hmem
    obtain ⟨env, th, rfl, hrest⟩ := hserved hmem
    exact ⟨env, th, rfl, hrest⟩
  cases e with
  | api e =>
      cases e with
      | step id' env =>
          simp only [amqp, Amqp.stepThread] at h
          split at h
          · exact hother h
          · dsimp only at h
            split at h
            · cases List.mem_singleton.mp h
            · cases h
      | start | drop | rpc | configUpdate | expire | advance => exact hother h
  | transmit replica =>
      simp only [amqp, Amqp.transmit] at h
      split at h
      · cases h
      · split at h
        · cases List.mem_singleton.mp h
        · cases h
  | lose | connect | queueDeclare | queueBind | queueUnbind | queueDelete | consume => cases h

/-- A request that comes to its answer has its job on the queue. -/
theorem step_acceptedStored (h : s.Carried seen) (hseen : AcceptedStored seen) (he : Delivers s e) :
    AcceptedStored (seen ++ ((amqp uuid).step s e).2) := by
  refine hseen.append (step_obs_length s e) fun id request response hmem hstatus => ?_
  obtain ⟨env, th, rfl, hth, rfl, hprog⟩ := responded_mem_step hmem
  obtain ⟨g, hg, hjob⟩ := h id th hth
  obtain ⟨job, hrequest, hpost⟩ := (hg.final hprog).posted hstatus
  obtain ⟨frame, since, hlast, rfl, hwhere⟩ := hjob job hpost
  refine ⟨frame, since, hlast, hrequest, ?_⟩
  rcases hwhere with hstored | ⟨replica, hwaiting⟩
  · exact hstored
  · exact (he th response hth hprog replica frame hwaiting hlast.1).elim

/-- What is shown as stored has been put on the queue. -/
theorem stored_mem_step {frame : Frame} (h : .stored frame ∈ ((amqp uuid).step s e).2) :
    ((amqp uuid).step s e).1.api.store.queue = s.api.store.queue ++ [.job frame.job] := by
  have hnone : ∀ obs : List Obs, .stored frame ∉ obs.flatMap Obs.responses := by
    intro obs hmem
    obtain ⟨o, -, ho⟩ := List.mem_flatMap.mp hmem
    cases o with
    | performed id o answer => cases ho
    | responded id request response => simp [Obs.responses] at ho
    | called call result => cases ho
  cases e with
  | api e =>
      cases e with
      | step id env =>
          simp only [amqp, Amqp.stepThread] at h
          split at h
          · exact (hnone _ h).elim
          · dsimp only at h
            split at h
            · cases List.mem_singleton.mp h
            · cases h
      | start | drop | rpc | configUpdate | expire | advance => exact (hnone _ h).elim
  | transmit replica =>
      simp only [amqp, Amqp.transmit] at h ⊢
      split
      · rename_i hout
        rw [hout] at h
        cases h
      · rename_i frame' outbox hout
        rw [hout] at h
        dsimp only at h ⊢
        split
        · rename_i hroutes
          rw [if_pos hroutes] at h
          obtain rfl := AmqpObs.stored.inj (List.mem_singleton.mp h)
          rfl
        · rename_i hroutes
          rw [if_neg hroutes] at h
          cases h
  | lose | connect | queueDeclare | queueBind | queueUnbind | queueDelete | consume => cases h

end Main

/-- **Accepted jobs are held by the broker** in every run in which the
frames of requests in flight are delivered, and delivered before these
requests are answered. -/
theorem accepted_stored (uuid : UuidParser) (db : Table) (replicas : ℕ → Replica)
    (es : List AmqpEvent) (hes : (amqp uuid).Along Delivers (.initial db replicas) es) :
    AcceptedStored ((amqp uuid).trace (.initial db replicas) es) := by
  have hinitial : (Amqp.initial db replicas).Carried [] ∧ AcceptedStored [] := by
    refine ⟨fun id th hth => (nomatch hth), fun before id request response hpre => ?_⟩
    have := List.prefix_nil.mp hpre
    simp at this
  have hrun := hes.trace_preserves (I := fun s seen => s.Carried seen ∧ AcceptedStored seen)
    (fun s seen e h he => ⟨step_carried h.1 he, step_acceptedStored h.1 h.2 he⟩) hinitial
  simpa using hrun.2

/-! ### A job that is accepted and lost -/

section Lost

/-- One row, and a channel in every replica. -/
def amqpState : Amqp := .initial oneRow fun _ => ⟨⟨.connected, true⟩, .default⟩

def enqueueStep : AmqpEvent := .api (.step ⟨⟨1⟩, 0⟩ {})

/-- A user of tenant `1` enqueues backup `7`, and the handler comes as far
as its answer; `fate` is what happens to the frame before it is given. -/
def enqueueWith (fate : List AmqpEvent) : List AmqpEvent :=
  .api (.start 0 0 ⟨"user", ⟨1⟩, [], 0, 0⟩ (.enqueue ⟨7⟩) ⟨⟨0⟩, 0⟩) :: enqueueStep :: enqueueStep ::
    (fate ++ [enqueueStep])

theorem accepted_stored_enqueueWith :
    AcceptedStored ((amqp .hyphenated).trace amqpState (enqueueWith [.transmit 0])) := by
  refine accepted_stored .hyphenated oneRow _ _ ⟨trivial, ?_, ?_, ?_, ?_, trivial⟩
  · intro th response hth hprog
    cases hth
    cases hprog
  · intro th response hth hprog
    cases hth
    cases hprog
  · exact fun frame outbox _ => .inl rfl
  · intro th response _ _ replica frame hmem
    rcases replica with _ | replica <;> cases hmem

/-- The job is accepted, and the broker stores nothing before that. -/
theorem not_acceptedStored_of_trace {fate : List AmqpEvent}
    (htrace : (amqp .hyphenated).trace amqpState (enqueueWith fate) =
      [.handed ⟨0, ⟨⟨1⟩, 0⟩, ⟨⟨7⟩, ⟨1⟩, "/data", false⟩⟩,
        .responded ⟨⟨1⟩, 0⟩ (.enqueue ⟨7⟩) ⟨202, .enqueued "backup job enqueued" ⟨7⟩⟩]) :
    ¬ AcceptedStored ((amqp .hyphenated).trace amqpState (enqueueWith fate)) := by
  intro h
  rw [htrace] at h
  obtain ⟨frame, since, ⟨-, ⟨before, hbefore⟩, -⟩, -, hstored⟩ :=
    h [.handed ⟨0, ⟨⟨1⟩, 0⟩, ⟨⟨7⟩, ⟨1⟩, "/data", false⟩⟩] _ _ _ List.prefix_rfl rfl
  have hmem : AmqpObs.stored frame ∈
      [AmqpObs.handed ⟨0, ⟨⟨1⟩, 0⟩, ⟨⟨7⟩, ⟨1⟩, "/data", false⟩⟩] := by
    rw [hbefore]
    exact List.mem_append_right _ (List.mem_cons_of_mem _ hstored)
  cases List.mem_singleton.mp hmem

/-- The frame waits while the request is answered, its connection is lost,
or the binding or the queue is gone when it reaches the broker: the answer
is 202 all the same, and nothing has been stored. -/
theorem not_accepted_stored :
    ¬ AcceptedStored ((amqp .hyphenated).trace amqpState (enqueueWith [])) ∧
    ¬ AcceptedStored ((amqp .hyphenated).trace amqpState (enqueueWith [.lose 0])) ∧
    ¬ AcceptedStored ((amqp .hyphenated).trace amqpState (enqueueWith [.queueUnbind, .transmit 0])) ∧
    ¬ AcceptedStored
      ((amqp .hyphenated).trace amqpState (enqueueWith [.queueDelete, .transmit 0])) :=
  ⟨not_acceptedStored_of_trace rfl, not_acceptedStored_of_trace rfl, not_acceptedStored_of_trace rfl,
    not_acceptedStored_of_trace rfl⟩

end Lost

end BackupService
