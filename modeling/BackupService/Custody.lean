import BackupService.Pipeline

/-!
What the broker still has.

A message is in the broker's custody as long as it is on the queue or has
been delivered and not been settled (`Pipeline.Has`). Custody alone does
not help a row that says `running`: what helps is a message in custody
whose worker has not got its result recorded yet, so that somebody is going
to report once more (`Pipeline.Holds`). No step but one loses such a
message, and that is the step that records the result. What a worker still
has when its channel is closed is not in custody: the broker has given it to
the queue (`Pipeline.Requeues`).
-/

namespace BackupService

open Lib Program

/-! ### Progress and messages -/

/-- The result is still to be recorded, by this worker or by the next one. -/
def Progress.Open : Progress → Prop
  | start => True
  | running => True
  | failed => True
  | reported => False
  | settled d => d.removes = false

/-- The worker has not been told that the row exists. -/
def Progress.Unmarked (g : Progress) : Prop := g.Open ∧ g ≠ .running

/-- The job in the message is about the backup. -/
def Message.For (id : Uuid) (m : Message) : Prop := ∃ job, m = .job job ∧ job.backupId = id

/-- The worker has come as far as `g` with the delivery. -/
structure InHand.At (h : InHand) (g : Progress) : Prop where
  obeys : Obeys (handling h.message) Progress.Through g h.prog
  decision : ∀ d, h.decision = some d → g = .settled d

namespace InHand.At

variable {h : InHand} {g : Progress}

theorem fresh (m : Message) : InHand.At ⟨m, none, handleDelivery m⟩ .start where
  obeys := handleDelivery_handling m
  decision _ hd := nomatch hd

theorem allow (hat : h.At g) {o : WorkerOp} {k : o.Answer → WorkerAction (Except LapinError Unit)}
    (hprog : h.prog = .op o k) : (handling h.message).allow g o := by
  have hobeys := hat.obeys
  rw [hprog] at hobeys
  exact hobeys.1

theorem not_settled (hat : h.At g) {o : WorkerOp}
    {k : o.Answer → WorkerAction (Except LapinError Unit)} (hprog : h.prog = .op o k)
    (d : Decision) : g ≠ .settled d := by
  rintro rfl
  have hallow := hat.allow hprog
  cases o with
  | rpc call => obtain ⟨_, _, ⟨h, -⟩ | ⟨h, -⟩⟩ := hallow <;> cases h
  | analyze data => cases hallow
  | settle d' =>
      rcases h with ⟨_ | _, _, _⟩
      · obtain ⟨h, -⟩ | ⟨h, -⟩ := hallow <;> cases h
      · cases hallow.1

theorem next (hat : h.At g) {o : WorkerOp} {k : o.Answer → WorkerAction (Except LapinError Unit)}
    (hprog : h.prog = .op o k) (uuid : UuidParser) (env : WorkerEnv) (api : State) :
    InHand.At ⟨h.message, (o.exec uuid env ⟨api, h.decision⟩).2.decision,
      k (o.exec uuid env ⟨api, h.decision⟩).1⟩
      (g.after o (o.exec uuid env ⟨api, h.decision⟩).1) where
  obeys := by
    have hobeys := hat.obeys
    rw [hprog] at hobeys
    exact hobeys.2 _ trivial
  decision d hd := by
    rcases exec_worker_decision uuid env ⟨api, h.decision⟩ o with
      hsame | ⟨d', rfl, hdecision⟩
    · -- Nobody goes on with a delivery that has been settled.
      exact (hat.not_settled hprog d (hat.decision d (hsame.symm.trans hd))).elim
    · obtain rfl := Option.some.inj (hdecision.symm.trans hd)
      rfl

theorem through (hat : h.At g) {r : Except LapinError Unit} (hprog : h.prog = .ret r) :
    ∃ d, g = .settled d := by
  have hobeys := hat.obeys
  rw [hprog] at hobeys
  exact hobeys

end InHand.At

/-- What a worker still has to do says how far it has come. -/
theorem InHand.At.eq {h : InHand} {g g' : Progress} (hat : h.At g) (hat' : h.At g')
    (hg : ∀ d, g ≠ .settled d) : g' = g := by
  cases hprog : h.prog with
  | ret r =>
      obtain ⟨d, hd⟩ := hat.through hprog
      exact (hg d hd).elim
  | op o k =>
      have hallow := hat.allow hprog
      have hallow' := hat'.allow hprog
      cases o with
      | rpc call =>
          obtain ⟨_, _, ⟨rfl, rfl⟩ | ⟨rfl, _, rfl, _⟩⟩ := hallow
          · obtain ⟨_, _, ⟨rfl, -⟩ | ⟨-, _, hcall, -⟩⟩ := hallow'
            · rfl
            · cases hcall
          · obtain ⟨_, _, ⟨-, hcall⟩ | ⟨rfl, -⟩⟩ := hallow'
            · cases hcall
            · rfl
      | analyze data => exact Eq.trans hallow' (Eq.symm hallow)
      | settle d =>
          rcases h with ⟨_ | _, _, _⟩
          · obtain ⟨rfl, rfl⟩ | ⟨rfl, rfl⟩ := hallow
            · obtain ⟨rfl, -⟩ | ⟨-, hd⟩ := hallow'
              · rfl
              · cases hd
            · obtain ⟨-, hd⟩ | ⟨rfl, -⟩ := hallow'
              · cases hd
              · rfl
          · exact hallow'.1.trans hallow.1.symm

/-! ### Custody -/

/-- The message is on the queue, or somebody has to settle it. -/
def Pipeline.Has (s : Pipeline) (m : Message) : Prop :=
  m ∈ s.api.store.queue ∨ ∃ w, m ∈ (s.consumers w).unacked

/-- The consumer has a message with `p`, at a point in `P` if it is in hand,
and in any case one that it does not take from the queue for good. -/
def Consumer.Holds (P : Progress → Prop) (p : Message → Prop) (c : Consumer) : Prop :=
  c.connected = true ∧ ((∃ m ∈ c.buffer, p m) ∨
    (∃ h g, c.inHand = some h ∧ h.At g ∧ P g ∧ p h.message) ∨
    ∃ x ∈ c.handled, p x.1 ∧ ∀ d, x.2 = some d → d.removes = false)

def Pipeline.Holds (s : Pipeline) (P : Progress → Prop) (p : Message → Prop) : Prop :=
  (∃ m ∈ s.api.store.queue, p m) ∨ ∃ w, (s.consumers w).Holds P p

section Unacked

variable {c : Consumer} {m : Message}

theorem Consumer.mem_deliveries : m ∈ c.deliveries ↔
    (∃ x ∈ c.handled, x.1 = m) ∨ (∃ h, c.inHand = some h ∧ h.message = m) ∨ m ∈ c.buffer := by
  simp [deliveries, Option.mem_toList, eq_comm]

theorem Consumer.mem_unacked : m ∈ c.unacked ↔ c.connected = true ∧ m ∈ c.deliveries := by
  cases hc : c.connected <;> simp [unacked, hc]

@[simp] theorem Consumer.unacked_empty : ({} : Consumer).unacked = [] := rfl

@[simp] theorem Consumer.deliveries_empty : ({} : Consumer).deliveries = [] := rfl

end Unacked

section Consumers

variable {s : Pipeline} {w : ℕ} {c : Consumer} {m : Message} {P : Progress → Prop}
  {p : Message → Prop}

@[simp] theorem setConsumer_api : (s.setConsumer w c).api = s.api := rfl

@[simp] theorem setConsumer_self : (s.setConsumer w c).consumers w = c := Function.update_self ..

theorem setConsumer_of_ne {w' : ℕ} (h : w' ≠ w) :
    (s.setConsumer w c).consumers w' = s.consumers w' :=
  Function.update_of_ne h ..

@[simp] theorem setQueue_consumers (queue : List Message) :
    (s.setQueue queue).consumers = s.consumers := rfl

@[simp] theorem setQueue_queue (queue : List Message) :
    (s.setQueue queue).api.store.queue = queue := rfl

@[simp] theorem setQueue_db (queue : List Message) :
    (s.setQueue queue).api.store.db = s.api.store.db := rfl

@[simp] theorem setQueue_inflight (queue : List Message) :
    (s.setQueue queue).api.inflight = s.api.inflight := rfl

/-- What one consumer and the queue hold, and what the others hold. -/
theorem Pipeline.Holds.cases (h : s.Holds P p) (w : ℕ) :
    (∃ m ∈ s.api.store.queue, p m) ∨ (s.consumers w).Holds P p ∨
      ∃ w' ≠ w, (s.consumers w').Holds P p := by
  rcases h with h | ⟨w', h⟩
  · exact .inl h
  · by_cases hw : w' = w
    · exact .inr (.inl (hw ▸ h))
    · exact .inr (.inr ⟨w', hw, h⟩)

theorem holds_setConsumer (h : (∃ m ∈ s.api.store.queue, p m) ∨ c.Holds P p ∨
    ∃ w' ≠ w, (s.consumers w').Holds P p) : (s.setConsumer w c).Holds P p := by
  rcases h with h | h | ⟨w', hw, h⟩
  · exact .inl h
  · exact .inr ⟨w, by rwa [setConsumer_self]⟩
  · exact .inr ⟨w', by rwa [setConsumer_of_ne hw]⟩

end Consumers

theorem mem_foldr_requeue {broker : Broker} {m : Message} {ms queue : List Message} :
    m ∈ ms.foldr broker.requeue queue ↔ m ∈ ms ∨ m ∈ queue := by
  induction ms with
  | nil => simp
  | cons m' ms ih =>
      rw [List.foldr_cons, (broker.perm _ _).mem_iff, List.mem_cons, ih, List.mem_cons, or_assoc]

/-! ### What a step makes of a consumer -/

/-- A step, what consumer `w` is after it, and what is observed. -/
inductive Moves (uuid : UuidParser) (s : Pipeline) (w : ℕ) :
    PipelineEvent → Consumer → List PipelineObs → Prop
  | same {e : PipelineEvent} {obs : List PipelineObs} : Moves uuid s w e (s.consumers w) obs
  | delivered {m : Message} {queue : List Message} (hconnected : (s.consumers w).connected = true)
      (hqueue : s.api.store.queue = m :: queue) : Moves uuid s w (.deliver w)
        { s.consumers w with buffer := (s.consumers w).buffer ++ [m] } []
  | took {env : WorkerEnv} {m : Message} {buffer : List Message}
      (hbuffer : (s.consumers w).buffer = m :: buffer) : Moves uuid s w (.work w env)
        { s.consumers w with buffer, inHand := some ⟨m, none, handleDelivery m⟩ } []
  | returned {env : WorkerEnv} {h : InHand} {r : Except LapinError Unit}
      (hin : (s.consumers w).inHand = some h) (hprog : h.prog = .ret r) :
      Moves uuid s w (.work w env) { s.consumers w with
        running := (s.consumers w).running && r.isOk
        inHand := none
        handled := (h.message, h.decision) :: (s.consumers w).handled } []
  | worked {env env' : WorkerEnv} {h : InHand} {o : WorkerOp}
      {k : o.Answer → WorkerAction (Except LapinError Unit)} {obs : List PipelineObs}
      (hin : (s.consumers w).inHand = some h) (hprog : h.prog = .op o k) :
      Moves uuid s w (.work w env)
        { s.consumers w with inHand := some ⟨h.message,
          (o.exec uuid env' ⟨s.api, h.decision⟩).2.decision,
          k (o.exec uuid env' ⟨s.api, h.decision⟩).1⟩ }
        (.worked w o (o.exec uuid env' ⟨s.api, h.decision⟩).1 :: obs)
  | stopped : Moves uuid s w (.stop w) { s.consumers w with running := false } []
  | settled {i : ℕ} {obs : List PipelineObs} : Moves uuid s w (.settle w i)
      { s.consumers w with handled := (s.consumers w).handled.eraseIdx i } obs
  | disconnected : Moves uuid s w (.disconnect w) { s.consumers w with connected := false } []
  | closed : Moves uuid s w (.close w) {} []

theorem moves (uuid : UuidParser) (broker : Broker) (s : Pipeline) (e : PipelineEvent) (w : ℕ) :
    Moves uuid s w e (((pipeline uuid broker).step s e).1.consumers w)
      ((pipeline uuid broker).step s e).2 := by
  -- a step of another consumer leaves this one alone
  have hset : ∀ {w' : ℕ} {c : Consumer} {s' : Pipeline} {obs : List PipelineObs},
      s'.consumers = s.consumers → (w = w' → Moves uuid s w e c obs) →
        Moves uuid s w e ((s'.setConsumer w' c).consumers w) obs := by
    intro w' c s' obs hsame hmoves
    by_cases hw : w = w'
    · subst hw
      rw [setConsumer_self]
      exact hmoves rfl
    · rw [setConsumer_of_ne hw, hsame]
      exact .same
  cases e with
  | api e =>
      simp only [pipeline, serve_consumers]
      exact .same
  | publishMalformed error => exact .same
  | deliver w' =>
      simp only [pipeline, Pipeline.deliver]
      split
      · refine hset rfl ?_
        rintro rfl
        exact .delivered ‹_› ‹_›
      · exact .same
  | work w' env =>
      have hworks := works uuid s w' env
      simp only [pipeline]
      generalize (s.work uuid w' env).1 = s', (s.work uuid w' env).2 = obs at hworks
      cases hworks with
      | idle => exact .same
      | take _ hbuffer =>
          refine hset rfl ?_
          rintro rfl
          exact .took hbuffer
      | ret hin hprog =>
          refine hset rfl ?_
          rintro rfl
          exact .returned hin hprog
      | op hin hprog =>
          refine hset rfl ?_
          rintro rfl
          exact .worked hin hprog
  | stop w' =>
      simp only [pipeline, Pipeline.stop]
      split
      · refine hset rfl ?_
        rintro rfl
        exact .stopped
      · exact .same
  | settle w' i =>
      simp only [pipeline, Pipeline.settle]
      split
      · refine hset rfl ?_
        rintro rfl
        exact .settled
      · exact .same
  | disconnect w' =>
      refine hset rfl ?_
      rintro rfl
      exact .disconnected
  | close w' =>
      refine hset rfl ?_
      rintro rfl
      exact .closed
  | late i oracle sql =>
      simp only [pipeline, Pipeline.executeLate]
      split <;> exact .same

/-- The worker that a step is about. -/
def PipelineEvent.worker : PipelineEvent → Option ℕ
  | api _ => none
  | publishMalformed _ => none
  | deliver w => some w
  | work w _ => some w
  | stop w => some w
  | settle w _ => some w
  | disconnect w => some w
  | close w => some w
  | late _ _ _ => none

/-- A step of one worker leaves the others alone. -/
theorem step_consumers {uuid : UuidParser} {broker : Broker} {s : Pipeline} {e : PipelineEvent}
    {w' : ℕ} (hw : e.worker ≠ some w') :
    ((pipeline uuid broker).step s e).1.consumers w' = s.consumers w' := by
  have hmoves := moves uuid broker s e w'
  generalize ((pipeline uuid broker).step s e).1.consumers w' = c at hmoves
  generalize ((pipeline uuid broker).step s e).2 = obs at hmoves
  cases hmoves with
  | same => rfl
  | delivered | took | returned | worked | stopped | settled | disconnected | closed =>
      exact (hw rfl).elim

/-! ### Which step loses what -/

section Steps

variable {uuid : UuidParser} {broker : Broker} {s : Pipeline} {w : ℕ} {m : Message}
  {P : Progress → Prop} {p : Message → Prop}

theorem Consumer.Holds.exists_unacked {c : Consumer} (h : c.Holds P p) : ∃ m ∈ c.unacked, p m := by
  obtain ⟨hc, ⟨m, hm, hp⟩ | ⟨h, g, hin, -, -, hp⟩ | ⟨x, hx, hp, -⟩⟩ := h
  · exact ⟨m, mem_unacked.mpr ⟨hc, mem_deliveries.mpr (.inr (.inr hm))⟩, hp⟩
  · exact ⟨_, mem_unacked.mpr ⟨hc, mem_deliveries.mpr (.inr (.inl ⟨h, hin, rfl⟩))⟩, hp⟩
  · exact ⟨_, mem_unacked.mpr ⟨hc, mem_deliveries.mpr (.inl ⟨x, hx, rfl⟩)⟩, hp⟩

theorem Serves.mem_queue {s' : Pipeline} {obs : List PipelineObs} (h : Serves s s' obs)
    (hm : m ∈ s.api.store.queue) : m ∈ s'.api.store.queue := by
  cases h with
  | same _ hqueue => rwa [hqueue]
  | statement _ _ _ _ hqueue => rwa [hqueue]
  | publish _ _ _ hqueue =>
      rw [hqueue]
      exact List.mem_append_left _ hm

theorem Pipeline.Holds.serve {e : Event} (h : s.Holds P p) : (s.serve uuid e).1.Holds P p := by
  rcases h with ⟨m, hm, hp⟩ | ⟨w, h⟩
  · exact .inl ⟨m, (serves s uuid e).mem_queue hm, hp⟩
  · exact .inr ⟨w, by rwa [serve_consumers]⟩

theorem Pipeline.Holds.deliver (h : s.Holds P p) : (s.deliver w).Holds P p := by
  rw [Pipeline.deliver]
  split
  · rename_i m queue hconnected hqueue
    refine holds_setConsumer ?_
    rcases h.cases w with ⟨m', hm', hp⟩ | ⟨hc, h⟩ | h
    · rw [hqueue] at hm'
      rcases List.mem_cons.mp hm' with rfl | hm'
      · refine .inr (.inl ⟨hconnected, .inl ⟨_, List.mem_append_right _ List.mem_cons_self, hp⟩⟩)
      · exact .inl ⟨m', hm', hp⟩
    · refine .inr (.inl ⟨hc, ?_⟩)
      rcases h with ⟨m', hm', hp⟩ | h
      · exact .inl ⟨m', List.mem_append_left _ hm', hp⟩
      · exact .inr h
    · exact .inr (.inr h)
  · exact h

theorem Pipeline.Holds.stop (h : s.Holds P p) : (s.stop w).Holds P p := by
  rw [Pipeline.stop]
  split
  · exact holds_setConsumer (h.cases w)
  · exact h

/-- What a consumer loses with its channel is on the queue. -/
theorem Pipeline.Holds.requeue {c : Consumer} (h : s.Holds P p) :
    ((s.requeue broker w).setConsumer w c).Holds P p := by
  refine holds_setConsumer ?_
  rcases h.cases w with ⟨m, hm, hp⟩ | h | h
  · exact .inl ⟨m, mem_foldr_requeue.mpr (.inr hm), hp⟩
  · obtain ⟨m, hm, hp⟩ := h.exists_unacked
    exact .inl ⟨m, mem_foldr_requeue.mpr (.inl hm), hp⟩
  · exact .inr (.inr h)

theorem Pipeline.Holds.settle {i : ℕ} (h : s.Holds P p) : (s.settle broker w i).1.Holds P p := by
  rw [Pipeline.settle]
  split
  · rename_i m d hc hi
    refine holds_setConsumer ?_
    have hqueue : ∀ {m'}, m' ∈ s.api.store.queue → m' ∈ d.settle broker m s.api.store.queue := by
      intro m' hm'
      rcases d with _ | _ | _
      · exact hm'
      · exact hm'
      · exact (broker.perm _ _).mem_iff.mpr (List.mem_cons_of_mem _ hm')
    rcases h.cases w with ⟨m', hm', hp⟩ | ⟨-, h⟩ | h
    · exact .inl ⟨m', hqueue hm', hp⟩
    · rcases h with h | h | ⟨x, hx, hp, hd⟩
      · exact .inr (.inl ⟨hc, .inl h⟩)
      · exact .inr (.inl ⟨hc, .inr (.inl h)⟩)
      · by_cases hxi : x = (m, some d)
        · -- The message that is settled is given back.
          subst hxi
          refine .inl ⟨m, ?_, hp⟩
          have hremoves := hd d rfl
          rcases d with _ | _ | _
          · cases hremoves
          · cases hremoves
          · exact (broker.perm _ _).mem_iff.mpr List.mem_cons_self
        · refine .inr (.inl ⟨hc, .inr (.inr ⟨x, ?_, hp, hd⟩)⟩)
          obtain ⟨j, hj⟩ := List.mem_iff_getElem?.mp hx
          refine List.mem_eraseIdx_iff_getElem?.mpr ⟨j, ?_, hj⟩
          rintro rfl
          exact hxi (Option.some.inj (hj.symm.trans hi))
    · exact .inr (.inr h)
  · exact h

/-- The worker itself keeps the message, unless it gets to a point outside
`P` with it. -/
theorem Pipeline.Holds.works {env : WorkerEnv} {s' : Pipeline} {obs : List PipelineObs}
    (hw : Works uuid s w env s' obs) (hstart : P .start)
    (hsettled : ∀ d, P (.settled d) → d.removes = false)
    (hop : ∀ h g o k, (s.consumers w).inHand = some h → h.prog = .op o k → h.At g → P g →
      p h.message → P (g.after o (o.exec uuid ((s.consumers w).env env) ⟨s.api, h.decision⟩).1))
    (h : s.Holds P p) : s'.Holds P p := by
  cases hw with
  | idle => exact h
  | take hin hbuffer =>
      refine holds_setConsumer ?_
      rcases h.cases w with h | ⟨hc, h⟩ | h
      · exact .inl h
      · rcases h with ⟨m', hm', hp⟩ | ⟨h', g, hin', -⟩ | h
        · rw [hbuffer] at hm'
          rcases List.mem_cons.mp hm' with rfl | hm'
          · exact .inr (.inl ⟨hc, .inr (.inl ⟨_, .start, rfl, .fresh _, hstart, hp⟩)⟩)
          · exact .inr (.inl ⟨hc, .inl ⟨m', hm', hp⟩⟩)
        · rw [hin] at hin'
          cases hin'
        · exact .inr (.inl ⟨hc, .inr (.inr h)⟩)
      · exact .inr (.inr h)
  | ret hin hprog =>
      refine holds_setConsumer ?_
      rcases h.cases w with h | ⟨hc, h⟩ | h
      · exact .inl h
      · rcases h with h | ⟨h', g, hin', hat, hg, hp⟩ | ⟨x, hx, hp, hd⟩
        · exact .inr (.inl ⟨hc, .inl h⟩)
        · -- Nothing is over before the delivery has been settled.
          obtain rfl := Option.some.inj (hin.symm.trans hin')
          obtain ⟨d, rfl⟩ := hat.through hprog
          refine .inr (.inl ⟨hc, .inr (.inr ⟨_, List.mem_cons_self, hp, fun d' hd' => ?_⟩)⟩)
          obtain rfl := Progress.settled.inj (hat.decision d' hd')
          exact hsettled d hg
        · exact .inr (.inl ⟨hc, .inr (.inr ⟨x, List.mem_cons_of_mem _ hx, hp, hd⟩)⟩)
      · exact .inr (.inr h)
  | op hin hprog henv =>
      subst henv
      refine holds_setConsumer ?_
      rcases h.cases w with h | ⟨hc, h⟩ | h
      · exact .inl (by rwa [exec_worker_queue])
      · rcases h with h | ⟨h', g, hin', hat, hg, hp⟩ | h
        · exact .inr (.inl ⟨hc, .inl h⟩)
        · obtain rfl := Option.some.inj (hin.symm.trans hin')
          have hg' := hop _ g _ _ hin hprog hat hg hp
          exact .inr (.inl ⟨hc, .inr (.inl ⟨_, _, rfl, hat.next hprog uuid _ s.api, hg', hp⟩)⟩)
        · exact .inr (.inl ⟨hc, .inr (.inr h)⟩)
      · exact .inr (.inr h)

/-- Over a closed channel a worker loses nothing that the broker has. -/
theorem Pipeline.Holds.works_orphan {env : WorkerEnv} {s' : Pipeline} {obs : List PipelineObs}
    (hw : Works uuid s w env s' obs) (hc : (s.consumers w).connected = false)
    (h : s.Holds P p) : s'.Holds P p := by
  rcases h.cases w with hqueue | ⟨hc', -⟩ | ⟨w', hne, h⟩
  · cases hw with
    | idle => exact h
    | take | ret => exact .inl hqueue
    | op => exact .inl (by rwa [setConsumer_api, exec_worker_queue])
  · rw [hc] at hc'
    cases hc'
  · cases hw with
    | idle => exact .inr ⟨w', h⟩
    | take | ret | op => exact holds_setConsumer (.inr (.inr ⟨w', hne, h⟩))

@[simp] theorem executeLate_consumers {i : ℕ} {oracle : Oracle} {sql : Fault} :
    (s.executeLate uuid i oracle sql).1.consumers = s.consumers := by
  rw [Pipeline.executeLate]
  split <;> rfl

@[simp] theorem executeLate_queue {i : ℕ} {oracle : Oracle} {sql : Fault} :
    (s.executeLate uuid i oracle sql).1.api.store.queue = s.api.store.queue := by
  rw [Pipeline.executeLate]
  split
  · exact call_queue ..
  · rfl

theorem Pipeline.Holds.late {i : ℕ} {oracle : Oracle} {sql : Fault} (h : s.Holds P p) :
    (s.executeLate uuid i oracle sql).1.Holds P p := by
  rcases h with ⟨m, hm, hp⟩ | ⟨w, h⟩
  · exact .inl ⟨m, by rwa [executeLate_queue], hp⟩
  · exact .inr ⟨w, by rwa [executeLate_consumers]⟩

end Steps

/-! ### Where messages come from -/

/-- The event gives the message back to the queue. -/
def Pipeline.Requeues (s : Pipeline) (m : Message) : PipelineEvent → Prop
  | .settle w i => (s.consumers w).connected = true ∧
      (s.consumers w).handled[i]? = some (m, some (.nack true))
  | .disconnect w => m ∈ (s.consumers w).unacked
  | .close w => m ∈ (s.consumers w).unacked
  | _ => False

section Origin

variable {uuid : UuidParser} {broker : Broker} {s : Pipeline} {e : PipelineEvent} {m : Message}

theorem Pipeline.Requeues.unacked (h : s.Requeues m e) : ∃ w, m ∈ (s.consumers w).unacked := by
  cases e with
  | settle w i =>
      obtain ⟨hc, hi⟩ := h
      exact ⟨w, Consumer.mem_unacked.mpr
        ⟨hc, Consumer.mem_deliveries.mpr (.inl ⟨_, List.mem_of_getElem? hi, rfl⟩)⟩⟩
  | disconnect w => exact ⟨w, h⟩
  | close w => exact ⟨w, h⟩
  | api | publishMalformed | deliver | work | stop | late => exact h.elim

/-- Where the messages on the queue come from. -/
theorem mem_queue_step (hm : m ∈ ((pipeline uuid broker).step s e).1.api.store.queue) :
    m ∈ s.api.store.queue ∨ s.Requeues m e ∨ (∃ error, m = .malformed error) ∨
      ∃ (job : BackupJob) (id : ReqId) (th : Thread) (k : Except LapinError Unit → Action Response),
        m = .job job ∧ .published job ∈ ((pipeline uuid broker).step s e).2 ∧
          s.api.inflight id = some th ∧ th.prog = .op (.publish job) k := by
  cases e with
  | api e => exact ((serves s uuid e).of_mem_queue hm).imp_right fun h => .inr (.inr h)
  | publishMalformed error =>
      rcases List.mem_append.mp hm with hold | hnew
      · exact .inl hold
      · exact .inr (.inr (.inl ⟨error, List.mem_singleton.mp hnew⟩))
  | deliver w =>
      simp only [pipeline, Pipeline.deliver] at hm
      split at hm
      · rename_i m' queue _ hqueue
        rw [hqueue]
        exact .inl (List.mem_cons_of_mem _ hm)
      · exact .inl hm
  | work w env =>
      have hw := works uuid s w env
      simp only [pipeline] at hm ⊢
      generalize (s.work uuid w env).1 = s', (s.work uuid w env).2 = obs at hw hm
      cases hw with
      | idle | take | ret => exact .inl hm
      | op =>
          rw [setConsumer_api, exec_worker_queue] at hm
          exact .inl hm
  | stop w =>
      simp only [pipeline, Pipeline.stop] at hm
      split at hm <;> exact .inl hm
  | settle w i =>
      simp only [pipeline, Pipeline.settle] at hm
      split at hm
      · rename_i m' d hc hi
        rcases d with _ | _ | _
        · exact .inl hm
        · exact .inl hm
        · -- A nack with requeue puts the message back, wherever the broker likes.
          rcases List.mem_cons.mp ((broker.perm _ _).mem_iff.mp hm) with rfl | hold
          · exact .inr (.inl ⟨hc, hi⟩)
          · exact .inl hold
      · exact .inl hm
  | disconnect w => exact (mem_foldr_requeue.mp hm).elim (fun h => .inr (.inl h)) .inl
  | close w => exact (mem_foldr_requeue.mp hm).elim (fun h => .inr (.inl h)) .inl
  | late i oracle sql =>
      simp only [pipeline, executeLate_queue] at hm
      exact .inl hm

/-- Where the messages with a consumer come from. -/
theorem mem_deliveries_step {w : ℕ}
    (hm : m ∈ (((pipeline uuid broker).step s e).1.consumers w).deliveries) :
    m ∈ s.api.store.queue ∧ (((pipeline uuid broker).step s e).1.consumers w).connected = true ∨
      m ∈ (s.consumers w).deliveries ∧
        ((((pipeline uuid broker).step s e).1.consumers w).connected = true →
          (s.consumers w).connected = true) := by
  have hmoves := moves uuid broker s e w
  generalize ((pipeline uuid broker).step s e).1.consumers w = c at hmoves hm ⊢
  generalize ((pipeline uuid broker).step s e).2 = obs at hmoves
  rw [Consumer.mem_deliveries] at hm ⊢
  cases hmoves with
  | same => exact .inr ⟨hm, id⟩
  | delivered hc hqueue =>
      rcases hm with h | h | h
      · exact .inr ⟨.inl h, id⟩
      · exact .inr ⟨.inr (.inl h), id⟩
      · rcases List.mem_append.mp h with h | h
        · exact .inr ⟨.inr (.inr h), id⟩
        · rw [hqueue, List.mem_singleton.mp h]
          exact .inl ⟨List.mem_cons_self, hc⟩
  | took hbuffer =>
      refine .inr ⟨?_, id⟩
      rw [hbuffer]
      rcases hm with h | ⟨h, hin, rfl⟩ | h
      · exact .inl h
      · obtain rfl := Option.some.inj hin
        exact .inr (.inr List.mem_cons_self)
      · exact .inr (.inr (List.mem_cons_of_mem _ h))
  | returned hin hprog =>
      refine .inr ⟨?_, id⟩
      rcases hm with ⟨x, hx, rfl⟩ | ⟨h, hin', -⟩ | h
      · rcases List.mem_cons.mp hx with rfl | hx
        · exact .inr (.inl ⟨_, hin, rfl⟩)
        · exact .inl ⟨x, hx, rfl⟩
      · cases hin'
      · exact .inr (.inr h)
  | worked hin hprog =>
      refine .inr ⟨?_, id⟩
      rcases hm with h | ⟨h, hin', rfl⟩ | h
      · exact .inl h
      · obtain rfl := Option.some.inj hin'
        exact .inr (.inl ⟨_, hin, rfl⟩)
      · exact .inr (.inr h)
  | stopped => exact .inr ⟨hm, id⟩
  | settled =>
      refine .inr ⟨hm.imp_left fun ⟨x, hx, hxm⟩ => ?_, id⟩
      exact ⟨x, List.mem_of_mem_eraseIdx hx, hxm⟩
  | disconnected => exact .inr ⟨hm, fun h => by cases h⟩
  | closed =>
      rcases hm with ⟨x, hx, -⟩ | ⟨h, hin, -⟩ | h
      · cases hx
      · cases hin
      · cases h

/-- A message in custody has been there before, or it has just been put on
the queue. -/
theorem has_step (h : ((pipeline uuid broker).step s e).1.Has m) :
    s.Has m ∨ (∃ error, m = .malformed error) ∨
      ∃ (job : BackupJob) (id : ReqId) (th : Thread) (k : Except LapinError Unit → Action Response),
        m = .job job ∧ .published job ∈ ((pipeline uuid broker).step s e).2 ∧
          s.api.inflight id = some th ∧ th.prog = .op (.publish job) k := by
  rcases h with hqueue | ⟨w, hw⟩
  · obtain hold | hback | hnew := mem_queue_step hqueue
    · exact .inl (.inl hold)
    · exact .inl (.inr hback.unacked)
    · exact .inr hnew
  · obtain ⟨hc, hw⟩ := Consumer.mem_unacked.mp hw
    obtain ⟨hqueue, -⟩ | ⟨hold, hc'⟩ := mem_deliveries_step hw
    · exact .inl (.inl hqueue)
    · exact .inl (.inr ⟨w, Consumer.mem_unacked.mpr ⟨hc' hc, hold⟩⟩)

end Origin

/-- The job is in a message, or a request is about to publish it. -/
def Pipeline.Pending (s : Pipeline) (job : BackupJob) : Prop :=
  s.Has (.job job) ∨ ∃ id th k, s.api.inflight id = some th ∧ th.prog = .op (.publish job) k

/-- A worker makes the call for the job. -/
def BackupJob.Calls (job : BackupJob) (call : Rpc) : Prop :=
  call = .updateStatus job.runningUpdate ∨ ∃ result, call = .reportResult result ∧ job.ReportedBy result

theorem BackupJob.Calls.parse {job : BackupJob} {call : Rpc} (h : job.Calls call) (uuid : UuidParser) :
    uuid.parse call.backupId = .ok job.backupId := by
  obtain rfl | ⟨result, rfl, hby⟩ := h
  · exact uuid.parse_toString _
  · rw [Rpc.backupId, hby.backupId]
    exact uuid.parse_toString _

/-- A call is about one backup. -/
theorem BackupJob.Calls.eq {job job' : BackupJob} {call : Rpc} (h : job.Calls call)
    (h' : job'.Calls call) : job'.backupId = job.backupId :=
  Except.ok.inj ((h'.parse .hyphenated).symm.trans (h.parse .hyphenated))

theorem InHand.At.calls {h : InHand} {g : Progress} {call : Rpc}
    {k : Except ProcessError Ack → WorkerAction (Except LapinError Unit)} (hat : h.At g)
    (hprog : h.prog = .op (.rpc call) k) : ∃ job, h.message = .job job ∧ job.Calls call := by
  obtain ⟨job, hjob, ⟨-, rfl⟩ | ⟨-, hreport⟩⟩ := hat.allow hprog
  · exact ⟨job, hjob, .inl rfl⟩
  · exact ⟨job, hjob, .inr hreport⟩

/-- Requests and workers keep to their protocols. -/
structure Pipeline.Sound (s : Pipeline) : Prop where
  threads : s.api.Posts
  hands : ∀ w h, (s.consumers w).inHand = some h → ∃ g, h.At g
  late : ∀ call ∈ s.late, ∃ job : BackupJob, job.Calls call

section Sound

variable {uuid : UuidParser} {broker : Broker} {s : Pipeline}

theorem sound_initial (db : Table) (replicas : ℕ → Replica) :
    (Pipeline.initial db replicas).Sound where
  threads _ _ hth := nomatch hth
  hands _ _ hin := nomatch hin
  late _ hcall := nomatch hcall

/-- A step of the broker or of a worker leaves the requests alone. -/
theorem step_api_inflight {e : PipelineEvent} (he : ∀ e', e ≠ .api e') :
    ((pipeline uuid broker).step s e).1.api.inflight = s.api.inflight := by
  cases e with
  | api e => exact (he e rfl).elim
  | publishMalformed error => rfl
  | deliver w =>
      simp only [pipeline, Pipeline.deliver]
      split <;> rfl
  | work w env =>
      have hw := works uuid s w env
      simp only [pipeline]
      generalize (s.work uuid w env).1 = s', (s.work uuid w env).2 = obs at hw
      cases hw with
      | idle => rfl
      | take => rfl
      | ret => rfl
      | op => exact exec_worker_inflight ..
  | stop w =>
      simp only [pipeline, Pipeline.stop]
      split <;> rfl
  | settle w i =>
      simp only [pipeline, Pipeline.settle]
      split <;> rfl
  | disconnect w => rfl
  | close w => rfl
  | late i oracle sql =>
      simp only [pipeline, Pipeline.executeLate]
      split <;> rfl

/-- What a worker has in hand after a step. -/
theorem step_inHand {e : PipelineEvent} {w : ℕ} {h : InHand}
    (hin : (((pipeline uuid broker).step s e).1.consumers w).inHand = some h) :
    (s.consumers w).inHand = some h ∨
      (∃ m ∈ (s.consumers w).buffer, h = ⟨m, none, handleDelivery m⟩) ∨
      ∃ env h₀ o k, (s.consumers w).inHand = some h₀ ∧ h₀.prog = .op o k ∧
        .worked w o (o.exec uuid env ⟨s.api, h₀.decision⟩).1 ∈
          ((pipeline uuid broker).step s e).2 ∧
        h = ⟨h₀.message, (o.exec uuid env ⟨s.api, h₀.decision⟩).2.decision,
          k (o.exec uuid env ⟨s.api, h₀.decision⟩).1⟩ := by
  have hmoves := moves uuid broker s e w
  generalize ((pipeline uuid broker).step s e).1.consumers w = c at hmoves hin
  generalize ((pipeline uuid broker).step s e).2 = obs at hmoves ⊢
  cases hmoves with
  | same | delivered | stopped | settled | disconnected => exact .inl hin
  | took hbuffer =>
      obtain rfl := Option.some.inj hin
      refine .inr (.inl ⟨_, ?_, rfl⟩)
      rw [hbuffer]
      exact List.mem_cons_self
  | worked hin₀ hprog =>
      obtain rfl := Option.some.inj hin
      exact .inr (.inr ⟨_, _, _, _, hin₀, hprog, List.mem_cons_self, rfl⟩)
  | returned | closed => cases hin

variable (uuid broker s) in
/-- What a step makes of the calls that are under way. -/
theorem late_step (e : PipelineEvent) : ((pipeline uuid broker).step s e).1.late = s.late ∨
    (∃ i oracle sql, e = .late i oracle sql ∧
      ((pipeline uuid broker).step s e).1.late = s.late.eraseIdx i) ∨
    ∃ w env h call k, e = .work w env ∧ env.rpc = .before ∧ (s.consumers w).inHand = some h ∧
      h.prog = .op (.rpc call) k ∧ ((pipeline uuid broker).step s e).1.late = call :: s.late := by
  cases e with
  | api e => exact .inl (by cases e <;> rfl)
  | publishMalformed | disconnect | close => exact .inl rfl
  | deliver w =>
      simp only [pipeline, Pipeline.deliver]
      split <;> exact .inl rfl
  | work w env =>
      have hw := works uuid s w env
      simp only [pipeline]
      generalize (s.work uuid w env).1 = s', (s.work uuid w env).2 = obs at hw
      cases hw with
      | idle | take | ret => exact .inl rfl
      | @op h o k _ hin hprog =>
          cases o with
          | rpc call =>
              cases hrpc : env.rpc with
              | before =>
                  refine .inr (.inr ⟨w, env, h, call, k, rfl, hrpc, hin, hprog, ?_⟩)
                  simp only [Pipeline.setConsumer, WorkerOp.underWay, hrpc, List.singleton_append]
              | none | after =>
                  simp only [Pipeline.setConsumer, WorkerOp.underWay, hrpc, List.nil_append, true_or]
          | analyze | settle => exact .inl rfl
  | stop w =>
      simp only [pipeline, Pipeline.stop]
      split <;> exact .inl rfl
  | settle w i =>
      simp only [pipeline, Pipeline.settle]
      split <;> exact .inl rfl
  | late i oracle sql =>
      simp only [pipeline, Pipeline.executeLate]
      split
      · exact .inr (.inl ⟨i, oracle, sql, rfl, rfl⟩)
      · exact .inl rfl

/-- Where the calls come from that are under way. -/
theorem mem_late_step {e : PipelineEvent} {call : Rpc}
    (hcall : call ∈ ((pipeline uuid broker).step s e).1.late) : call ∈ s.late ∨
      ∃ w h k, (s.consumers w).inHand = some h ∧ h.prog = .op (.rpc call) k := by
  obtain hsame | ⟨i, _, _, -, herase⟩ | ⟨w, _, h, call', k, -, -, hin, hprog, hcons⟩ :=
    late_step uuid broker s e
  · exact .inl (hsame ▸ hcall)
  · exact .inl (List.mem_of_mem_eraseIdx (herase ▸ hcall))
  · rw [hcons] at hcall
    obtain rfl | hold := List.mem_cons.mp hcall
    · exact .inr ⟨w, h, k, hin, hprog⟩
    · exact .inl hold

theorem sound_step (h : s.Sound) (e : PipelineEvent) :
    ((pipeline uuid broker).step s e).1.Sound where
  threads := by
    cases e with
    | api e =>
        rcases serve_api s uuid e with hsame | hstep
        · simpa only [pipeline, hsame] using h.threads
        · simpa only [pipeline, hstep] using step_posts h.threads
    | publishMalformed | deliver | work | stop | settle | disconnect | close | late =>
        intro id th hth
        rw [step_api_inflight fun _ he => by cases he] at hth
        exact h.threads id th hth
  hands w hand hin := by
    obtain hold | ⟨m, -, rfl⟩ | ⟨env, h₀, o, k, hold, hprog, -, rfl⟩ := step_inHand hin
    · exact h.hands w hand hold
    · exact ⟨.start, .fresh m⟩
    · obtain ⟨g, hg⟩ := h.hands w h₀ hold
      exact ⟨_, hg.next hprog uuid env s.api⟩
  late call hcall := by
    obtain hold | ⟨w, h₀, k, hin, hprog⟩ := mem_late_step hcall
    · exact h.late call hold
    · obtain ⟨g, hg⟩ := h.hands w h₀ hin
      obtain ⟨job, -, hjob⟩ := hg.calls hprog
      exact ⟨job, hjob⟩

/-- A job has been pending before, or it has just been made from a row. -/
theorem pending_step (h : s.Sound) {e : PipelineEvent} {job : BackupJob}
    (hjob : ((pipeline uuid broker).step s e).1.Pending job) :
    s.Pending job ∨ ∃ b, s.api.store.db.find b.id = some b ∧ job = b.job ∧
      ((pipeline uuid broker).step s e).1.api.store.db = s.api.store.db := by
  rcases hjob with hhas | ⟨id, th, k, hth, hprog⟩
  · obtain hold | ⟨_, herror⟩ | ⟨_, id, th, k, hm, -, hth, hprog⟩ := has_step hhas
    · exact .inl (.inl hold)
    · cases herror
    · obtain rfl := Message.job.inj hm
      exact .inl (.inr ⟨id, th, k, hth, hprog⟩)
  · cases e with
    | api e =>
        rcases serve_api s uuid e with hsame | hstep
        · simp only [pipeline, hsame] at hth
          exact .inl (.inr ⟨id, th, k, hth, hprog⟩)
        · simp only [pipeline, hstep] at hth ⊢
          rcases step_publishing h.threads hth hprog with hold | hnew
          · exact .inl (.inr ⟨id, th, k, hold, hprog⟩)
          · exact .inr hnew
    | publishMalformed | deliver | work | stop | settle | disconnect | close | late =>
        rw [step_api_inflight fun _ he => by cases he] at hth
        exact .inl (.inr ⟨id, th, k, hth, hprog⟩)

end Sound

end BackupService
