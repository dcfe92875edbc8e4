import BackupService.Lifecycle
import Mathlib.Data.List.Perm.Basic

/-!
When a completed row is set back.

A job that has been published once is one message, and the broker has it in
one place at a time: on the queue, or with one of the workers
(`Pipeline.Single`). When a worker with a channel reports the job it has that
message in hand. So nobody is left who could begin with it (`Pipeline.Spent`),
and there will be nobody before the broker requeues the message.

There are two exceptions. A worker whose channel has been closed may still
have a delivery of the message that it has not begun with, and a call that a
worker has given up may be executed yet.
-/

namespace BackupService

open Lib Program

/-! ### One message -/

/-- The job in the message is about the backup. -/
def Message.about (id : Uuid) : Message → Bool
  | .job j => j.backupId = id
  | .malformed _ => false

theorem Message.about_iff {id : Uuid} {m : Message} : m.about id = true ↔ m.For id := by
  cases m with
  | job job => simp [Message.about, Message.For]
  | malformed error => simp [Message.about, Message.For]

/-- Where the broker can have a message. -/
inductive Place
  | queue
  | worker (w : ℕ)
  deriving DecidableEq

/-- The messages about the backup at a place. -/
def Pipeline.copies (s : Pipeline) (id : Uuid) : Place → ℕ
  | .queue => s.api.store.queue.countP (Message.about id)
  | .worker w => (s.consumers w).unacked.countP (Message.about id)

/-- There is one message about the backup at most, and if there is one, it
is at `a`. -/
def Pipeline.Single (s : Pipeline) (id : Uuid) (a : Option Place) : Prop :=
  ∀ p, s.copies id p ≤ if a = some p then 1 else 0

/-- The messages about the backup on the queue and with one worker. -/
def Pipeline.total (s : Pipeline) (id : Uuid) (w : ℕ) : ℕ :=
  s.copies id .queue + s.copies id (.worker w)

section Places

variable {uuid : UuidParser} {broker : Broker} {s s' : Pipeline} {id : Uuid} {a : Option Place}
  {w : ℕ}

/-- A step between the queue and one worker that makes no new message about
the backup. -/
theorem Pipeline.Single.of_total (h : s.Single id a)
    (hrest : ∀ w' ≠ w, s'.consumers w' = s.consumers w')
    (htotal : s'.total id w ≤ s.total id w) :
    ∃ a', s'.Single id a' := by
  have hqueue := h .queue
  have hworker := h (.worker w)
  rw [Pipeline.total, Pipeline.total] at htotal
  have hothers : ∀ w' ≠ w, s'.copies id (.worker w') ≤ if a = some (.worker w') then 1 else 0 := by
    intro w' hw
    have := h (.worker w')
    rwa [Pipeline.copies, hrest w' hw]
  -- If the message is where the step happens, it stays on one of the two sides.
  by_cases hnear : a = some .queue ∨ a = some (.worker w)
  · have hothers' : ∀ w' ≠ w, s'.copies id (.worker w') = 0 := by
      intro w' hw
      have hne : a ≠ some (.worker w') := by
        rcases hnear with rfl | rfl
        · simp
        · simpa using hw.symm
      have := hothers w' hw
      rw [if_neg hne] at this
      omega
    have hone : s'.copies id .queue + s'.copies id (.worker w) ≤ 1 := by
      rcases hnear with rfl | rfl <;> simp at hqueue hworker <;> omega
    by_cases hzero : s'.copies id .queue = 0
    · refine ⟨some (.worker w), fun p => ?_⟩
      cases p with
      | queue => omega
      | worker w' =>
          by_cases hw : w' = w
          · subst hw
            rw [if_pos rfl]
            omega
          · rw [hothers' w' hw]
            omega
    · refine ⟨some .queue, fun p => ?_⟩
      cases p with
      | queue =>
          rw [if_pos rfl]
          omega
      | worker w' =>
          by_cases hw : w' = w
          · subst hw
            omega
          · rw [hothers' w' hw]
            omega
  · -- It is elsewhere, and on the two sides there was none.
    rw [not_or] at hnear
    rw [if_neg hnear.1] at hqueue
    rw [if_neg hnear.2] at hworker
    refine ⟨a, fun p => ?_⟩
    cases p with
    | queue => omega
    | worker w' =>
        by_cases hw : w' = w
        · subst hw
          omega
        · exact hothers w' hw

variable (broker) in
theorem countP_foldr_requeue (p : Message → Bool) (ms queue : List Message) :
    (ms.foldr broker.requeue queue).countP p = ms.countP p + queue.countP p := by
  induction ms with
  | nil => simp
  | cons m ms ih =>
      rw [List.foldr_cons, (broker.perm _ _).countP_eq, List.countP_cons, List.countP_cons, ih]
      omega

theorem countP_eraseIdx_handled {l : List (Message × Option Decision)} {i : ℕ} {m : Message}
    {d : Option Decision} (h : l[i]? = some (m, d)) (p : Message → Bool) :
    (l.map Prod.fst).countP p = ((l.eraseIdx i).map Prod.fst).countP p + [m].countP p := by
  obtain ⟨hi, hget⟩ := List.getElem?_eq_some_iff.mp h
  have hperm := (List.getElem_cons_eraseIdx_perm hi).map Prod.fst
  rw [← hperm.countP_eq, hget, List.map_cons, List.countP_cons, List.countP_singleton]

theorem total_deliver : (s.deliver w).total id w ≤ s.total id w := by
  simp only [Pipeline.deliver]
  split
  · rename_i m queue hconnected hqueue
    simp only [Pipeline.total, Pipeline.copies, setConsumer_api, setQueue_queue, setConsumer_self,
      hqueue, Consumer.unacked, hconnected, if_true, Consumer.deliveries, List.countP_append,
      List.countP_cons, List.countP_nil]
    omega
  · exact Nat.le_refl _

/-- A worker that neither gets a delivery nor gets rid of one. -/
theorem total_of_deliveries (hqueue : s'.api.store.queue = s.api.store.queue)
    (hconnected : (s'.consumers w).connected = (s.consumers w).connected)
    (hdeliveries : (s'.consumers w).deliveries.countP (Message.about id) =
      (s.consumers w).deliveries.countP (Message.about id)) : s'.total id w ≤ s.total id w := by
  simp only [Pipeline.total, Pipeline.copies, Consumer.unacked, hqueue, hconnected]
  split
  · rw [hdeliveries]
  · exact Nat.le_refl _

theorem total_works {env : WorkerEnv} {obs : List PipelineObs} (hw : Works uuid s w env s' obs) :
    s'.total id w ≤ s.total id w := by
  cases hw with
  | idle => exact Nat.le_refl _
  | take hin hbuffer =>
      refine total_of_deliveries rfl (by rw [setConsumer_self]) ?_
      simp only [setConsumer_self, hin, hbuffer, Consumer.deliveries, Option.toList_some,
        Option.toList_none, List.map_cons, List.map_nil, List.countP_append, List.countP_cons,
        List.countP_nil]
      omega
  | ret hin hprog =>
      refine total_of_deliveries rfl (by rw [setConsumer_self]) ?_
      simp only [setConsumer_self, hin, Consumer.deliveries, Option.toList_some,
        Option.toList_none, List.map_cons, List.map_nil, List.countP_append, List.countP_cons,
        List.countP_nil]
      omega
  | op hin hprog =>
      refine total_of_deliveries ?_ (by rw [setConsumer_self]) ?_
      · rw [setConsumer_api]
        exact exec_worker_queue ..
      · simp only [setConsumer_self, hin, Consumer.deliveries, Option.toList_some, List.map_cons,
          List.map_nil]

theorem total_stop : (s.stop w).total id w ≤ s.total id w := by
  simp only [Pipeline.stop]
  split
  · exact total_of_deliveries rfl (by rw [setConsumer_self]) (by rw [setConsumer_self]; rfl)
  · exact Nat.le_refl _

theorem total_settle {i : ℕ} : (s.settle broker w i).1.total id w ≤ s.total id w := by
  simp only [Pipeline.settle]
  split
  · rename_i m d hconnected hi
    have herase := countP_eraseIdx_handled hi (Message.about id)
    have hqueue : (d.settle broker m s.api.store.queue).countP (Message.about id) ≤
        s.api.store.queue.countP (Message.about id) + [m].countP (Message.about id) := by
      rcases d with _ | _ | _
      · exact Nat.le_add_right _ _
      · exact Nat.le_add_right _ _
      · show (broker.requeue m s.api.store.queue).countP _ ≤ _
        rw [(broker.perm _ _).countP_eq, ← List.singleton_append, List.countP_append]
        omega
    simp only [Pipeline.total, Pipeline.copies, setConsumer_api, setQueue_queue, setConsumer_self,
      Consumer.unacked, hconnected, if_true, Consumer.deliveries, List.countP_append]
    omega
  · exact Nat.le_refl _

/-- What is requeued is not with the worker any more. -/
theorem total_requeue {c : Consumer} (hc : c.unacked = []) :
    ((s.requeue broker w).setConsumer w c).total id w ≤ s.total id w := by
  have hqueue := countP_foldr_requeue broker (Message.about id)
    (s.consumers w).unacked s.api.store.queue
  have hnone : ((s.requeue broker w).setConsumer w c).copies id (.worker w) = 0 := by
    simp [Pipeline.copies, hc]
  have hall : ((s.requeue broker w).setConsumer w c).copies id .queue =
      s.copies id (.worker w) + s.copies id .queue := hqueue
  rw [Pipeline.total, Pipeline.total, hnone, hall]
  omega

variable (uuid broker) in
theorem step_total {e : PipelineEvent} (hw : e.worker = some w) :
    ((pipeline uuid broker).step s e).1.total id w ≤ s.total id w := by
  cases e with
  | api | publishMalformed | late => cases hw
  | deliver w' =>
      obtain rfl := Option.some.inj hw
      exact total_deliver
  | work w' env =>
      obtain rfl := Option.some.inj hw
      exact total_works (works uuid s _ env)
  | stop w' =>
      obtain rfl := Option.some.inj hw
      exact total_stop
  | settle w' i =>
      obtain rfl := Option.some.inj hw
      exact total_settle
  | disconnect w' =>
      obtain rfl := Option.some.inj hw
      exact total_requeue rfl
  | close w' =>
      obtain rfl := Option.some.inj hw
      exact total_requeue rfl

theorem copies_eq_zero {p : Place} : s.copies id p = 0 ↔ ∀ m, (match p with
    | .queue => m ∈ s.api.store.queue
    | .worker w => m ∈ (s.consumers w).unacked) → ¬ m.For id := by
  cases p <;> simp only [Pipeline.copies, List.countP_eq_zero, Message.about_iff]

/-- Nobody has anything about the backup. -/
structure Pipeline.Unpublished (s : Pipeline) (id : Uuid) : Prop where
  queue : ∀ m ∈ s.api.store.queue, ¬ m.For id
  deliveries : ∀ w, ∀ m ∈ (s.consumers w).deliveries, ¬ m.For id
  late : ∀ call ∈ s.late, ∀ job : BackupJob, job.Calls call → job.backupId ≠ id

theorem Pipeline.Unpublished.single (h : s.Unpublished id) (a : Option Place) : s.Single id a := by
  intro p
  refine le_of_eq_of_le (copies_eq_zero.mpr fun m hm => ?_) (Nat.zero_le _)
  cases p with
  | queue => exact h.queue m hm
  | worker w => exact h.deliveries w m (Consumer.mem_unacked.mp hm).2

variable (uuid broker) in
/-- A step makes no new message about a backup, unless its job is published. -/
theorem single_step (h : s.Single id a) (e : PipelineEvent)
    (hpub : ∀ job, .published job ∈ ((pipeline uuid broker).step s e).2 → job.backupId = id →
      s.Unpublished id) :
    ∃ a', ((pipeline uuid broker).step s e).1.Single id a' := by
  have hsame : ∀ {s' : Pipeline}, s'.consumers = s.consumers →
      s'.copies id .queue ≤ s.copies id .queue → s'.Single id a := by
    intro s' hconsumers hqueue p
    cases p with
    | queue => exact Nat.le_trans hqueue (h .queue)
    | worker w =>
        rw [Pipeline.copies, hconsumers]
        exact h (.worker w)
  cases hw : e.worker with
  | some w =>
      -- A step of a worker moves messages between its place and the queue.
      exact h.of_total (fun w' hne => step_consumers (by rw [hw]; simpa using hne.symm))
        (step_total uuid broker hw)
  | none =>
      cases e with
      | api e =>
          have hserves := serves s uuid e
          have hconsumers := serve_consumers s uuid e
          simp only [pipeline] at hpub ⊢
          generalize (s.serve uuid e).1 = s', (s.serve uuid e).2 = obs at hserves hconsumers hpub
          cases hserves with
          | same _ hqueue =>
              refine ⟨a, hsame hconsumers ?_⟩
              rw [Pipeline.copies, hqueue, Pipeline.copies]
          | statement _ _ _ _ hqueue =>
              refine ⟨a, hsame hconsumers ?_⟩
              rw [Pipeline.copies, hqueue, Pipeline.copies]
          | publish hth hprog hdb hqueue =>
              rename_i job k
              have hcopies : s'.copies id .queue =
                  s.copies id .queue + if job.backupId = id then 1 else 0 := by
                rw [Pipeline.copies, hqueue, List.countP_append, List.countP_singleton]
                simp [Pipeline.copies, Message.about]
              by_cases hid : job.backupId = id
              · -- there has been no message, and now it is on the queue
                have hnone := (hpub job List.mem_cons_self hid).single none
                refine ⟨some .queue, fun p => ?_⟩
                cases p with
                | queue =>
                    have := hnone .queue
                    simp only [reduceCtorEq, if_false] at this
                    rw [hcopies, if_pos rfl, if_pos hid]
                    omega
                | worker w =>
                    rw [Pipeline.copies, hconsumers]
                    simpa [Pipeline.copies] using hnone (.worker w)
              · rw [if_neg hid] at hcopies
                exact ⟨a, hsame hconsumers (by omega)⟩
      | publishMalformed error =>
          refine ⟨a, hsame rfl ?_⟩
          simp [pipeline, Pipeline.copies, Message.about]
      | late i oracle sql =>
          refine ⟨a, hsame executeLate_consumers (le_of_eq ?_)⟩
          simp only [pipeline, Pipeline.copies, executeLate_queue]
      | deliver | work | stop | settle | disconnect | close => cases hw

end Places

/-! ### Who could still make a call -/

/-- The event gives a message about the backup back to the queue. -/
def Pipeline.GivesBack (s : Pipeline) (id : Uuid) (e : PipelineEvent) : Prop :=
  ∃ m, s.Requeues m e ∧ m.For id

/-- No worker has a delivery of the job that the broker has given to others. -/
def Pipeline.Attached (s : Pipeline) (id : Uuid) : Prop :=
  ∀ w, (s.consumers w).connected = false → ∀ m ∈ (s.consumers w).deliveries, ¬ m.For id

/-- No worker will begin with the job, unless it comes back to the queue. -/
structure Pipeline.Untaken (s : Pipeline) (id : Uuid) : Prop where
  queue : ∀ m ∈ s.api.store.queue, ¬ m.For id
  buffers : ∀ w, ∀ m ∈ (s.consumers w).buffer, ¬ m.For id
  hands : ∀ w h, (s.consumers w).inHand = some h → h.message.For id → ¬ h.At .start

/-- Nor is anybody's UpdateStatus still under way. -/
structure Pipeline.Spent (s : Pipeline) (id : Uuid) : Prop extends s.Untaken id where
  late : ∀ job : BackupJob, job.backupId = id → .updateStatus job.runningUpdate ∉ s.late

/-- No worker will make a call for the job. -/
structure Pipeline.Over (s : Pipeline) (id : Uuid) : Prop extends s.Untaken id where
  reports : ∀ w h, (s.consumers w).inHand = some h → h.message.For id → ¬ h.At .running

def Rpc.about (id : Uuid) (call : Rpc) : Bool := call.backupId = id.toString

/-- A call about the backup that is under way is the last one. -/
def Pipeline.Lasts (s : Pipeline) (id : Uuid) : Prop :=
  s.late.countP (Rpc.about id) = 0 ∨ s.late.countP (Rpc.about id) = 1 ∧ s.Over id

section Spent

variable {uuid : UuidParser} {broker : Broker} {s : Pipeline} {id : Uuid} {e : PipelineEvent}
  {a : Option Place}

theorem BackupJob.Calls.about_iff {job : BackupJob} {call : Rpc} (h : job.Calls call) :
    call.about id = true ↔ job.backupId = id := by
  have hcall : call.backupId = job.backupId.toString := by
    obtain rfl | ⟨result, rfl, hby⟩ := h
    · rfl
    · exact hby.backupId
  rw [Rpc.about, decide_eq_true_iff, hcall]
  constructor
  · intro hstring
    have hparse := UuidParser.hyphenated.parse_toString job.backupId
    rw [hstring, UuidParser.hyphenated.parse_toString id] at hparse
    exact (Except.ok.inj hparse).symm
  · exact congrArg _

/-- A job that one of the workers has in hand is with that worker only. -/
theorem alone_of_hand (h : s.Single id a) (hattached : s.Attached id) {w : ℕ} {hand : InHand}
    (hin : (s.consumers w).inHand = some hand) (hfor : hand.message.For id) :
    (∀ m ∈ s.api.store.queue, ¬ m.For id) ∧ (∀ w', ∀ m ∈ (s.consumers w').buffer, ¬ m.For id) ∧
      ∀ w' h', (s.consumers w').inHand = some h' → h'.message.For id → w' = w := by
  have hunacked : ∀ {w' : ℕ} {m : Message}, m ∈ (s.consumers w').deliveries → m.For id →
      m ∈ (s.consumers w').unacked := by
    intro w' m hm hfor'
    refine Consumer.mem_unacked.mpr ⟨?_, hm⟩
    by_contra hc
    exact hattached w' (Bool.eq_false_iff.mpr hc) m hm hfor'
  have hmem := hunacked (Consumer.mem_deliveries.mpr (.inr (.inl ⟨hand, hin, rfl⟩))) hfor
  have hworker := h (.worker w)
  have ha : a = some (.worker w) := by
    by_contra hne
    rw [if_neg hne] at hworker
    exact copies_eq_zero.mp (Nat.le_zero.mp hworker) _ hmem hfor
  subst ha
  have hrest : ∀ p ≠ Place.worker w, s.copies id p = 0 := by
    intro p hp
    have := h p
    rw [if_neg (by simpa using hp.symm)] at this
    exact Nat.le_zero.mp this
  have hother : ∀ {w' : ℕ} {m : Message}, w' ≠ w → m ∈ (s.consumers w').deliveries → ¬ m.For id :=
    fun hw hm hfor' => copies_eq_zero.mp (hrest (.worker _) (by simpa using hw)) _
      (hunacked hm hfor') hfor'
  refine ⟨fun m hm => copies_eq_zero.mp (hrest .queue (by simp)) m hm, fun w' m hm hfor' => ?_,
    fun w' h' hin' hfor' => ?_⟩
  · by_cases hw : w' = w
    · -- The message in hand is one, and this one would be another.
      subst hw
      rw [if_pos rfl] at hworker
      have hhand := List.countP_pos_iff.mpr ⟨_, List.mem_singleton_self _, Message.about_iff.mpr hfor⟩
      have hbuffer := List.countP_pos_iff.mpr ⟨m, hm, Message.about_iff.mpr hfor'⟩
      rw [Pipeline.copies, Consumer.unacked, if_pos (Consumer.mem_unacked.mp hmem).1,
        Consumer.deliveries, hin, List.countP_append, List.countP_append] at hworker
      simp only [Option.toList_some, List.map_cons, List.map_nil] at hworker
      omega
    · exact hother hw (Consumer.mem_deliveries.mpr (.inr (.inr hm))) hfor'
  · by_contra hw
    exact hother hw (Consumer.mem_deliveries.mpr (.inr (.inl ⟨h', hin', rfl⟩))) hfor'

/-- A job that a worker has marked as running is with that worker only. -/
theorem untaken_of_running (h : s.Single id a) (hattached : s.Attached id) {w : ℕ} {hand : InHand}
    (hin : (s.consumers w).inHand = some hand) (hat : hand.At .running)
    (hfor : hand.message.For id) : s.Untaken id := by
  obtain ⟨hqueue, hbuffers, hhands⟩ := alone_of_hand h hattached hin hfor
  refine ⟨hqueue, hbuffers, fun w' h' hin' hfor' hstart => ?_⟩
  obtain rfl := hhands w' h' hin' hfor'
  obtain rfl := Option.some.inj (hin.symm.trans hin')
  cases hat.eq hstart fun d => by simp

/-- Whoever is going to report has been told that the row is `running`. -/
theorem of_after {h : InHand} {g : Progress} {o : WorkerOp}
    {k : o.Answer → WorkerAction (Except LapinError Unit)} (hat : h.At g) (hprog : h.prog = .op o k)
    (r : o.Answer) : g.after o r ≠ .start ∧ (g.after o r = .running → g = .start ∨ g = .running) := by
  have hallow := hat.allow hprog
  cases o with
  | rpc call =>
      rcases r with e | ack
      · rw [after_error]
        simp
      · obtain ⟨_, -, ⟨rfl, rfl⟩ | ⟨rfl, _, rfl, -⟩⟩ := hallow <;> simp [Progress.after]
  | analyze data =>
      obtain rfl : g = .running := hallow
      cases r <;> simp [Progress.after]
  | settle d => simp [Progress.after]

/-- A worker is sent what was on the queue. -/
theorem mem_buffer_step {w : ℕ} {m : Message}
    (hm : m ∈ (((pipeline uuid broker).step s e).1.consumers w).buffer) :
    m ∈ (s.consumers w).buffer ∨ m ∈ s.api.store.queue := by
  have hmoves := moves uuid broker s e w
  generalize ((pipeline uuid broker).step s e).1.consumers w = c at hmoves hm
  generalize ((pipeline uuid broker).step s e).2 = obs at hmoves
  cases hmoves with
  | same | returned | worked | stopped | settled | disconnected => exact .inl hm
  | delivered _ hqueue =>
      rcases List.mem_append.mp hm with hold | hnew
      · exact .inl hold
      · rw [hqueue, List.mem_singleton.mp hnew]
        exact .inr List.mem_cons_self
  | took hbuffer =>
      rw [hbuffer]
      exact .inl (List.mem_cons_of_mem _ hm)
  | closed => cases hm

/-- What is on the queue about a backup has been there, or is given back, or
is published. -/
theorem mem_queue_for {m : Message} (hm : m ∈ ((pipeline uuid broker).step s e).1.api.store.queue)
    (hfor : m.For id) : m ∈ s.api.store.queue ∨ s.Requeues m e ∨
      ∃ job, .published job ∈ ((pipeline uuid broker).step s e).2 ∧ job.backupId = id := by
  obtain hold | hback | ⟨_, rfl⟩ | ⟨job, _, _, _, rfl, hobs, -⟩ := mem_queue_step hm
  · exact .inl hold
  · exact .inr (.inl hback)
  · obtain ⟨job, hjob, -⟩ := hfor
    cases hjob
  · obtain ⟨job', hjob, hid⟩ := hfor
    cases hjob
    exact .inr (.inr ⟨job, hobs, hid⟩)

theorem untaken_step (h : s.Untaken id) (hsound : s.Sound) (hback : ¬ s.GivesBack id e)
    (hpub : ∀ job, .published job ∈ ((pipeline uuid broker).step s e).2 → job.backupId ≠ id) :
    ((pipeline uuid broker).step s e).1.Untaken id where
  queue m hm hfor := by
    obtain hold | hreq | ⟨job, hjob, hid⟩ := mem_queue_for hm hfor
    · exact h.queue m hold hfor
    · exact hback ⟨m, hreq, hfor⟩
    · exact hpub job hjob hid
  buffers w m hm hfor := by
    rcases mem_buffer_step hm with hold | hqueue
    · exact h.buffers w m hold hfor
    · exact h.queue m hqueue hfor
  hands w hand hin hfor hat := by
    obtain hold | ⟨m, hm, rfl⟩ | ⟨env, h₀, o, k, hold, hprog, -, rfl⟩ := step_inHand hin
    · exact h.hands w hand hold hfor hat
    · exact h.buffers w m hm hfor
    · obtain ⟨g, hat₀⟩ := hsound.hands w h₀ hold
      exact (of_after hat₀ hprog _).1 (hat.eq (hat₀.next hprog uuid env s.api) fun d => by simp)

theorem spent_step (h : s.Spent id) (hsound : s.Sound) (hback : ¬ s.GivesBack id e)
    (hpub : ∀ job, .published job ∈ ((pipeline uuid broker).step s e).2 → job.backupId ≠ id) :
    ((pipeline uuid broker).step s e).1.Spent id where
  toUntaken := untaken_step h.toUntaken hsound hback hpub
  late job hid hlate := by
    obtain hold | ⟨w, h₀, k, hin, hprog⟩ := mem_late_step hlate
    · exact h.late job hid hold
    · obtain ⟨g, hat⟩ := hsound.hands w h₀ hin
      obtain ⟨job', hjob', ⟨rfl, hcall⟩ | ⟨-, _, hcall, -⟩⟩ := hat.allow hprog
      · have hid' := BackupJob.Calls.eq (.inl rfl) (.inl hcall)
        exact h.hands w h₀ hin ⟨job', hjob', hid'.trans hid⟩ hat
      · cases hcall

theorem over_step (h : s.Over id) (hsound : s.Sound) (hback : ¬ s.GivesBack id e)
    (hpub : ∀ job, .published job ∈ ((pipeline uuid broker).step s e).2 → job.backupId ≠ id) :
    ((pipeline uuid broker).step s e).1.Over id where
  toUntaken := untaken_step h.toUntaken hsound hback hpub
  reports w hand hin hfor hat := by
    obtain hold | ⟨m, hm, rfl⟩ | ⟨env, h₀, o, k, hold, hprog, -, rfl⟩ := step_inHand hin
    · exact h.reports w hand hold hfor hat
    · exact h.buffers w m hm hfor
    · obtain ⟨g, hat₀⟩ := hsound.hands w h₀ hold
      have hafter := hat.eq (hat₀.next hprog uuid env s.api) fun d => by simp
      obtain rfl | rfl := (of_after hat₀ hprog _).2 hafter
      · exact h.hands w h₀ hold hfor hat₀
      · exact h.reports w h₀ hold hfor hat₀

/-- A worker has what it goes on with without a channel from a time when it
had one. -/
theorem attached_step (h : s.Attached id) (hback : ¬ s.GivesBack id e) :
    ((pipeline uuid broker).step s e).1.Attached id := by
  intro w hc m hm hfor
  obtain ⟨-, hc'⟩ | ⟨hold, -⟩ := mem_deliveries_step hm
  · rw [hc] at hc'
    cases hc'
  · cases hconnected : (s.consumers w).connected with
    | false => exact h w hconnected m hold hfor
    | true =>
        have hunacked := Consumer.mem_unacked.mpr ⟨hconnected, hold⟩
        have hmoves := moves uuid broker s e w
        generalize ((pipeline uuid broker).step s e).1.consumers w = c at hmoves hc
        generalize ((pipeline uuid broker).step s e).2 = obs at hmoves
        cases hmoves with
        | same | delivered | took | returned | worked | stopped | settled =>
            cases hconnected.symm.trans hc
        | disconnected | closed => exact hback ⟨m, hunacked, hfor⟩

theorem unpublished_step (h : s.Unpublished id) (hsound : s.Sound)
    (hpub : ∀ job, .published job ∈ ((pipeline uuid broker).step s e).2 → job.backupId ≠ id) :
    ((pipeline uuid broker).step s e).1.Unpublished id where
  queue m hm hfor := by
    obtain hold | hreq | ⟨job, hjob, hid⟩ := mem_queue_for hm hfor
    · exact h.queue m hold hfor
    · obtain ⟨w, hw⟩ := hreq.unacked
      exact h.deliveries w m (Consumer.mem_unacked.mp hw).2 hfor
    · exact hpub job hjob hid
  deliveries w m hm hfor := by
    obtain ⟨hqueue, -⟩ | ⟨hold, -⟩ := mem_deliveries_step hm
    · exact h.queue m hqueue hfor
    · exact h.deliveries w m hold hfor
  late call hcall job hjob hid := by
    obtain hold | ⟨w, h₀, k, hin, hprog⟩ := mem_late_step hcall
    · exact h.late call hold job hjob hid
    · obtain ⟨g, hat⟩ := hsound.hands w h₀ hin
      obtain ⟨job', hjob', hcall'⟩ := hat.calls hprog
      refine h.deliveries w _ (Consumer.mem_deliveries.mpr (.inr (.inl ⟨h₀, hin, rfl⟩)))
        ⟨job', hjob', (hjob.eq hcall').trans hid⟩

theorem Pipeline.Unpublished.late_eq_zero (h : s.Unpublished id) (hsound : s.Sound) :
    s.late.countP (Rpc.about id) = 0 := by
  refine List.countP_eq_zero.mpr fun call hcall habout => ?_
  obtain ⟨job, hjob⟩ := hsound.late call hcall
  exact h.late call hcall job hjob (hjob.about_iff.mp habout)

/-- A worker that has given up its call about the backup gives the delivery
back, and nobody else has one. -/
theorem over_of_late (h : s.Single id a) (hattached : s.Attached id) {w : ℕ} {env : WorkerEnv}
    {hand : InHand} {call : Rpc} {k : Except ProcessError Ack → WorkerAction (Except LapinError Unit)}
    {g : Progress} (hin : (s.consumers w).inHand = some hand) (hat : hand.At g)
    (hprog : hand.prog = .op (.rpc call) k) (hfor : hand.message.For id) (hrpc : env.rpc = .before) :
    ((pipeline uuid broker).step s (.work w env)).1.Over id := by
  obtain ⟨hqueue, hbuffers, hhands⟩ := alone_of_hand h hattached hin hfor
  have hanswer : ((WorkerOp.rpc call).exec uuid ((s.consumers w).env env) ⟨s.api, hand.decision⟩).1 =
      .error .transport := by
    have hrpc' : ((s.consumers w).env env).rpc = .before := hrpc
    simp only [WorkerOp.exec, hrpc']
    rfl
  have hfailed := hat.next hprog uuid ((s.consumers w).env env) s.api
  rw [hanswer, after_error] at hfailed
  have hstep : ((pipeline uuid broker).step s (.work w env)).1.consumers w =
      { s.consumers w with inHand := some ⟨hand.message,
        ((WorkerOp.rpc call).exec uuid ((s.consumers w).env env) ⟨s.api, hand.decision⟩).2.decision,
        k (.error .transport)⟩ } := by
    simp only [pipeline, Pipeline.work, hin, hprog, setConsumer_self, hanswer]
  have hhands' : ∀ w' h', (((pipeline uuid broker).step s (.work w env)).1.consumers w').inHand =
      some h' → h'.message.For id → h'.At .failed := by
    intro w' h' hin' hfor'
    by_cases hw : w' = w
    · subst hw
      rw [hstep] at hin'
      obtain rfl := Option.some.inj hin'
      exact hfailed
    · rw [step_consumers (by simpa [PipelineEvent.worker] using Ne.symm hw)] at hin'
      exact (hw (hhands w' h' hin' hfor')).elim
  refine ⟨⟨?_, fun w' m hm hfor' => ?_, fun w' h' hin' hfor' hstart => ?_⟩,
    fun w' h' hin' hfor' hrunning => ?_⟩
  · have hsame : ((pipeline uuid broker).step s (.work w env)).1.api.store.queue =
        s.api.store.queue := by
      simp only [pipeline, Pipeline.work, hin, hprog, setConsumer_api, exec_worker_queue]
    rw [hsame]
    exact hqueue
  · rcases mem_buffer_step hm with hold | hold
    · exact hbuffers w' m hold hfor'
    · exact hqueue m hold hfor'
  · cases hstart.eq (hhands' w' h' hin' hfor') fun d => by simp
  · cases hrunning.eq (hhands' w' h' hin' hfor') fun d => by simp

theorem lasts_step (h : s.Lasts id) (hsound : s.Sound) (hsingle : s.Single id a)
    (hattached : s.Attached id) (hback : ¬ s.GivesBack id e)
    (hpub : ∀ job, .published job ∈ ((pipeline uuid broker).step s e).2 → job.backupId = id →
      s.Unpublished id) : ((pipeline uuid broker).step s e).1.Lasts id := by
  have hover : s.late.countP (Rpc.about id) = 1 → s.Over id →
      ((pipeline uuid broker).step s e).1.Over id := by
    refine fun hone hover => over_step hover hsound hback fun job hjob hid => ?_
    rw [(hpub job hjob hid).late_eq_zero hsound] at hone
    cases hone
  obtain hsame | ⟨i, _, _, -, herase⟩ | ⟨w, env, h₀, call, k, rfl, hrpc, hin, hprog, hcons⟩ :=
    late_step uuid broker s e
  · rw [Pipeline.Lasts, hsame]
    exact h.imp_right fun ⟨hone, ho⟩ => ⟨hone, hover hone ho⟩
  · have hle : (s.late.eraseIdx i).countP (Rpc.about id) ≤ s.late.countP (Rpc.about id) :=
      (List.eraseIdx_sublist _ _).countP_le
    rw [Pipeline.Lasts, herase]
    obtain hzero | ⟨hone, ho⟩ := h
    · exact .inl (by omega)
    · rcases Nat.le_one_iff_eq_zero_or_eq_one.mp (hone ▸ hle) with hzero | hone'
      · exact .inl hzero
      · exact .inr ⟨hone', hover hone ho⟩
  · obtain ⟨g, hat⟩ := hsound.hands w h₀ hin
    obtain ⟨job, hjob, hallow⟩ := hat.allow hprog
    have hcalls : job.Calls call := hallow.imp And.right And.right
    rw [Pipeline.Lasts, hcons, List.countP_cons]
    by_cases hid : job.backupId = id
    · have hfor : h₀.message.For id := ⟨job, hjob, hid⟩
      rw [if_pos (hcalls.about_iff.mpr hid)]
      obtain hzero | ⟨-, ho⟩ := h
      · exact .inr ⟨by omega, over_of_late hsingle hattached hin hat hprog hfor hrpc⟩
      · -- Whoever makes a call is not over with it.
        obtain ⟨rfl, -⟩ | ⟨rfl, -⟩ := hallow
        · exact (ho.hands w h₀ hin hfor hat).elim
        · exact (ho.reports w h₀ hin hfor hat).elim
    · rw [if_neg fun habout => hid (hcalls.about_iff.mp habout), Nat.add_zero]
      exact h.imp_right fun ⟨hone, ho⟩ => ⟨hone, hover hone ho⟩

/-- Nobody is left who could begin with a job that is reported while no worker
without a channel has it and no call about it is under way. -/
theorem spent_of_makes (h : s.Single id a) (hattached : s.Attached id)
    (hlate : s.late.countP (Rpc.about id) = 0) {job : BackupJob} {result : ProcessingResult}
    {obs : List PipelineObs} (hmakes : s.Makes .running job (.reportResult result) e obs)
    (hby : job.ReportedBy result) (hid : job.backupId = id) : s.Spent id := by
  have hnone : ∀ call ∈ s.late, call.about id ≠ true := List.countP_eq_zero.mp hlate
  refine ⟨?_, fun job' hid' hmem => hnone _ hmem ?_⟩
  · cases hmakes with
    | worker hin hat hjob => exact untaken_of_running h hattached hin hat ⟨job, hjob, hid⟩
    | late hi =>
        refine (hnone _ (List.mem_of_getElem? hi) ?_).elim
        exact (BackupJob.Calls.about_iff (.inr ⟨result, rfl, hby⟩)).mpr hid
  · exact (BackupJob.Calls.about_iff (.inl rfl)).mpr hid'

/-- Nor if the last call about it is that report. -/
theorem spent_of_lasts (h : s.Single id a) (hattached : s.Attached id) (hlasts : s.Lasts id)
    {job : BackupJob} {result : ProcessingResult} {obs : List PipelineObs}
    (hmakes : s.Makes .running job (.reportResult result) e obs)
    (hby : job.ReportedBy result) (hid : job.backupId = id) : s.Spent id := by
  obtain hzero | ⟨hone, hover⟩ := hlasts
  · exact spent_of_makes h hattached hzero hmakes hby hid
  · refine ⟨hover.toUntaken, fun job' hid' hmem => ?_⟩
    cases hmakes with
    | worker hin hat hjob => exact hover.reports _ _ hin ⟨job, hjob, hid⟩ hat
    | late hi =>
        -- The one call is a report.
        rw [List.countP_eq_length_filter] at hone
        obtain ⟨call, hcall⟩ := List.length_eq_one_iff.mp hone
        have hreport : Rpc.reportResult result ∈ s.late.filter (Rpc.about id) :=
          List.mem_filter.mpr ⟨List.mem_of_getElem? hi,
            (BackupJob.Calls.about_iff (.inr ⟨result, rfl, hby⟩)).mpr hid⟩
        have hupdate : Rpc.updateStatus job'.runningUpdate ∈ s.late.filter (Rpc.about id) :=
          List.mem_filter.mpr ⟨hmem, (BackupJob.Calls.about_iff (.inl rfl)).mpr hid'⟩
        rw [hcall, List.mem_singleton] at hreport hupdate
        cases hreport.trans hupdate.symm

end Spent

/-! ### Runs -/

/-- The observation is that a job of the backup is on the queue. -/
def PipelineObs.publishes (id : Uuid) : PipelineObs → Bool
  | published job => job.backupId = id
  | _ => false

theorem not_published {obs : List PipelineObs} {id : Uuid}
    (h : obs.countP (PipelineObs.publishes id) = 0) (job : BackupJob) (hjob : .published job ∈ obs) :
    job.backupId ≠ id := by
  have := List.countP_eq_zero.mp h _ hjob
  simpa [PipelineObs.publishes] using this

theorem published_pos {obs : List PipelineObs} {id : Uuid} {job : BackupJob}
    (hjob : .published job ∈ obs) (hid : job.backupId = id) :
    0 < obs.countP (PipelineObs.publishes id) :=
  List.countP_pos_iff.mpr ⟨_, hjob, by simpa [PipelineObs.publishes] using hid⟩

section Runs

variable {uuid : UuidParser} {broker : Broker} {db : Table} {replicas : ℕ → Replica} {id : Uuid}

/-- The event makes the row completed. -/
def Completes (uuid : UuidParser) (broker : Broker) (id : Uuid) (s : Pipeline) (e : PipelineEvent) :
    Prop :=
  s.api.statusOf id ≠ some "completed" ∧
    ((pipeline uuid broker).step s e).1.api.statusOf id = some "completed"

/-- Only a report completes a row. -/
theorem Completes.makes {s : Pipeline} {e : PipelineEvent} (h : Completes uuid broker id s e)
    (hsound : s.Sound) (hun : Untouched ((pipeline uuid broker).step s e).2 id) :
    ∃ job result, s.Makes .running job (.reportResult result) e ((pipeline uuid broker).step s e).2 ∧
      job.ReportedBy result ∧ job.backupId = id := by
  obtain ⟨hbefore, hafter⟩ := h
  have hstep := step_statusOf uuid broker hsound e hun
  generalize ((pipeline uuid broker).step s e).1 = s', ((pipeline uuid broker).step s e).2 = obs
    at hstep hafter ⊢
  cases hstep with
  | same h => exact (hbefore (h.symm.trans hafter)).elim
  | created hnone h =>
      rw [h] at hafter
      exact absurd (Option.some.inj hafter) (by decide)
  | running _ _ h =>
      rw [h] at hafter
      obtain ⟨x, -, hx⟩ := Option.map_eq_some_iff.mp hafter
      exact absurd hx (by decide)
  | completed hmakes hby hid => exact ⟨_, _, hmakes, hby, hid⟩

theorem Pipeline.Makes.not_givesBack {s : Pipeline} {g : Progress} {job : BackupJob} {call : Rpc}
    {e : PipelineEvent} {obs : List PipelineObs} (h : s.Makes g job call e obs) :
    ¬ s.GivesBack id e := by
  rintro ⟨m, hback, -⟩
  cases h with
  | worker | late => exact hback

theorem Pipeline.Unpublished.not_begun {s : Pipeline} (h : s.Unpublished id) : ¬ s.Begun id := by
  rintro (⟨w, hand, hin, -, hfor⟩ | ⟨job, result, hlate, hby, hid⟩)
  · exact h.deliveries w _ (Consumer.mem_deliveries.mpr (.inr (.inl ⟨hand, hin, rfl⟩))) hfor
  · exact h.late _ hlate job (.inr ⟨result, rfl, hby⟩) hid

variable (uuid broker db replicas id) in
/-- One job published, one message. -/
theorem run_single (es : List PipelineEvent)
    (hpub : ((pipeline uuid broker).trace (.initial db replicas) es).countP
      (PipelineObs.publishes id) ≤ 1) :
    (∃ a, ((pipeline uuid broker).run (.initial db replicas) es).Single id a) ∧
      (((pipeline uuid broker).trace (.initial db replicas) es).countP
        (PipelineObs.publishes id) = 0 →
          ((pipeline uuid broker).run (.initial db replicas) es).Unpublished id) := by
  induction es using Machine.run_induction with
  | hnil =>
      have hnone : (Pipeline.initial db replicas).Unpublished id :=
        ⟨fun _ hm => (nomatch hm), fun _ _ hm => (nomatch hm), fun _ hcall => (nomatch hcall)⟩
      exact ⟨⟨none, hnone.single none⟩, fun _ => hnone⟩
  | hsnoc es e ih =>
      rw [Machine.trace_concat, List.countP_append] at hpub
      obtain ⟨⟨a, ha⟩, hnone⟩ := ih (by omega)
      rw [Machine.run_concat, Machine.trace_concat, List.countP_append]
      refine ⟨single_step uuid broker ha e fun job hjob hid => hnone (by
        have := published_pos hjob hid
        omega), fun hzero => ?_⟩
      exact unpublished_step (hnone (by omega)) (run_sound es) (not_published (by omega))

/-- As long as nothing about the backup comes back to the queue, nobody goes on
with it without a channel, and a call about it that is given up is the last
one. -/
theorem run_lasts (es : List PipelineEvent)
    (hpub : ((pipeline uuid broker).trace (.initial db replicas) es).countP
      (PipelineObs.publishes id) ≤ 1)
    (hback : (pipeline uuid broker).Along (fun s e => ¬ s.GivesBack id e) (.initial db replicas) es) :
    ((pipeline uuid broker).run (.initial db replicas) es).Attached id ∧
      ((pipeline uuid broker).run (.initial db replicas) es).Lasts id := by
  induction es using Machine.run_induction with
  | hnil => exact ⟨fun _ hc => (nomatch hc), .inl rfl⟩
  | hsnoc es e ih =>
      rw [Machine.trace_concat, List.countP_append] at hpub
      obtain ⟨hes, he, -⟩ := Machine.along_append.mp hback
      obtain ⟨hattached, hlasts⟩ := ih (by omega) hes
      obtain ⟨⟨a, ha⟩, hnone⟩ := run_single uuid broker db replicas id es (by omega)
      rw [Machine.run_concat]
      refine ⟨attached_step hattached he, lasts_step hlasts (run_sound es) ha hattached he
        fun job hjob hid => hnone ?_⟩
      have := published_pos hjob hid
      omega

/-- A completed row that nobody can begin with stays completed. -/
theorem completed_run {s : Pipeline} (hsound : s.Sound) (hspent : s.Spent id)
    (hstatus : s.api.statusOf id = some "completed") (es : List PipelineEvent)
    (hun : Untouched ((pipeline uuid broker).trace s es) id)
    (hpub : ((pipeline uuid broker).trace s es).countP (PipelineObs.publishes id) = 0)
    (hback : (pipeline uuid broker).Along (fun s e => ¬ s.GivesBack id e) s es) :
    ((pipeline uuid broker).run s es).api.statusOf id = some "completed" := by
  induction es generalizing s with
  | nil => exact hstatus
  | cons e es ih =>
      rw [Machine.trace_cons] at hun
      rw [Machine.trace_cons, List.countP_append] at hpub
      refine ih (sound_step hsound e)
        (spent_step hspent hsound hback.1 (not_published (by omega))) ?_ hun.of_append.2 (by omega)
        hback.2
      have hstep := step_statusOf uuid broker hsound e hun.of_append.1
      generalize ((pipeline uuid broker).step s e).1 = s',
        ((pipeline uuid broker).step s e).2 = obs at hstep
      cases hstep with
      | same h => rw [h, hstatus]
      | created hnone =>
          rw [hnone] at hstatus
          cases hstatus
      | running hmakes hid =>
          cases hmakes with
          | worker hin hat hjob => exact (hspent.hands _ _ hin ⟨_, hjob, hid⟩ hat).elim
          | late hi => exact (hspent.late _ hid (List.mem_of_getElem? hi)).elim
      | completed _ _ _ h => rw [h, hstatus, Option.map_some]

/-- A completed row stays completed until its message is requeued, if nobody
was left who could begin with it. -/
theorem completed_stays {pre mid : List PipelineEvent} {e : PipelineEvent}
    (hun : Untouched ((pipeline uuid broker).trace (.initial db replicas) (pre ++ e :: mid)) id)
    (hpub : ((pipeline uuid broker).trace (.initial db replicas) (pre ++ e :: mid)).countP
      (PipelineObs.publishes id) ≤ 1)
    (hcompletes : Completes uuid broker id ((pipeline uuid broker).run (.initial db replicas) pre) e)
    (hspent : ((pipeline uuid broker).run (.initial db replicas) pre).Spent id)
    (hback : (pipeline uuid broker).Along (fun s e => ¬ s.GivesBack id e)
      ((pipeline uuid broker).run (.initial db replicas) (pre ++ [e])) mid) :
    ((pipeline uuid broker).run (.initial db replicas) (pre ++ e :: mid)).api.statusOf id =
      some "completed" := by
  rw [Machine.trace_append, Machine.trace_cons] at hun hpub
  rw [List.countP_append, List.countP_append] at hpub
  rw [Machine.run_concat] at hback
  rw [Machine.run_append, Machine.run_cons]
  have hsound : ((pipeline uuid broker).run (.initial db replicas) pre).Sound := run_sound pre
  obtain ⟨job, result, hmakes, hby, rfl⟩ := hcompletes.makes hsound hun.of_append.2.of_append.1
  -- The job has been published before.
  have hcount := mt (run_single uuid broker db replicas _ pre (by omega)).2 fun hnone => hnone.not_begun (hmakes.begun hby)
  exact completed_run (sound_step hsound e)
    (spent_step hspent hsound hmakes.not_givesBack (not_published (by omega))) hcompletes.2 mid
    hun.of_append.2.of_append.2 (by omega) hback

/-- Where the message never comes back, nobody was. -/
theorem completed_stays_of_never {pre mid post : List PipelineEvent} {e : PipelineEvent}
    (hun : Untouched ((pipeline uuid broker).trace (.initial db replicas) (pre ++ e :: mid ++ post)) id)
    (hpub : ((pipeline uuid broker).trace (.initial db replicas) (pre ++ e :: mid ++ post)).countP
      (PipelineObs.publishes id) ≤ 1)
    (hback : (pipeline uuid broker).Along (fun s e => ¬ s.GivesBack id e) (.initial db replicas)
      (pre ++ e :: mid ++ post))
    (hcompletes : Completes uuid broker id ((pipeline uuid broker).run (.initial db replicas) pre) e) :
    ((pipeline uuid broker).run (.initial db replicas) (pre ++ e :: mid)).api.statusOf id =
      some "completed" := by
  rw [Machine.trace_append] at hun hpub
  rw [List.countP_append] at hpub
  replace hun := hun.of_append.1
  replace hback := (Machine.along_append.mp hback).1
  refine completed_stays hun (by omega) hcompletes ?_ ?_
  · rw [Machine.trace_append, Machine.trace_cons] at hun
    rw [Machine.trace_append, List.countP_append] at hpub
    obtain ⟨⟨a, ha⟩, -⟩ := run_single uuid broker db replicas id pre (by omega)
    obtain ⟨hattached, hlasts⟩ := run_lasts pre (by omega) (Machine.along_append.mp hback).1
    obtain ⟨job, result, hmakes, hby, hid⟩ := hcompletes.makes (run_sound pre)
      hun.of_append.2.of_append.1
    exact spent_of_lasts ha hattached hlasts hmakes hby hid
  · rw [Machine.run_concat]
    exact (Machine.along_append.mp hback).2.2

/-- If a completed row stays completed, it is never set back. -/
theorem advances_of_stays (hdb : ∀ r, db.find id = some r → r.status = "pending")
    {es : List PipelineEvent}
    (hstays : ∀ pre e mid, pre ++ e :: mid <+: es →
      Completes uuid broker id ((pipeline uuid broker).run (.initial db replicas) pre) e →
      ((pipeline uuid broker).run (.initial db replicas) (pre ++ e :: mid)).api.statusOf id =
        some "completed")
    {pre : List PipelineEvent} {e : PipelineEvent} {x y : String} (hpre : pre ++ [e] <+: es)
    (hx : ((pipeline uuid broker).run (.initial db replicas) pre).api.statusOf id = some x)
    (hy : ((pipeline uuid broker).run (.initial db replicas) (pre ++ [e])).api.statusOf id = some y)
    (hmoves : StatusMoves x y) : StatusAdvances x y := by
  rcases hmoves with heq | hrun | hdone | ⟨rfl, rfl⟩
  · exact .inl heq
  · exact .inr (.inl hrun)
  · exact .inr (.inr hdone)
  · exfalso
    have hinitial : ¬ (Pipeline.initial db replicas).api.statusOf id = some "completed" := by
      intro hstatus
      obtain ⟨r, hr, hcompleted⟩ := Option.map_eq_some_iff.mp hstatus
      exact absurd ((hdb r hr).symm.trans hcompleted) (by decide)
    obtain ⟨pre', e', mid, rfl, hbefore, hafter⟩ := (pipeline uuid broker).exists_step_of_run
      (P := fun s => s.api.statusOf id = some "completed") hinitial hx
    rw [List.append_assoc, List.cons_append] at hpre hy
    rw [Machine.run_concat] at hafter
    have hkept := hstays pre' e' (mid ++ [e]) hpre ⟨hbefore, hafter⟩
    exact absurd (Option.some.inj (hkept.symm.trans hy)) (by decide)

end Runs

/-- **The lifecycle of a status.** The row of a backup that is neither
patched nor deleted is `pending`, then `running`, and from then on `running`
or `completed`; a completed row is set back by nobody's call but the
UpdateStatus of a worker that has taken the job.

If the job is published once, a row that has been completed stays completed
until the broker requeues its message, provided that nobody was left who could
begin with it; that is so if no worker without a channel had a delivery of it
and no call about it was under way. If the broker never requeues the message,
the row is `pending`, then `running`, then `completed`. -/
theorem status_lifecycle (uuid : UuidParser) (broker : Broker) (replicas : ℕ → Replica) {db : Table}
    {id : Uuid} (hdb : ∀ r, db.find id = some r → r.status = "pending") (es : List PipelineEvent)
    (hun : Untouched ((pipeline uuid broker).trace (.initial db replicas) es) id) :
    (∃ n rest, Pipeline.statuses uuid broker id (.initial db replicas) es =
        List.replicate n "pending" ++ rest ∧
      (∀ x ∈ rest, x = "running" ∨ x = "completed") ∧ rest.head? ≠ some "completed") ∧
    (∀ pre e, pre ++ [e] <+: es →
      ((pipeline uuid broker).run (.initial db replicas) pre).api.statusOf id = some "completed" →
      ((pipeline uuid broker).run (.initial db replicas) (pre ++ [e])).api.statusOf id ≠
        some "completed" →
      ((pipeline uuid broker).run (.initial db replicas) (pre ++ [e])).api.statusOf id =
        some "running" ∧
      ∃ job : BackupJob, job.backupId = id ∧
        ((∃ w r, .worked w (.rpc (.updateStatus job.runningUpdate)) r ∈
            ((pipeline uuid broker).step ((pipeline uuid broker).run (.initial db replicas) pre) e).2) ∨
          .late (.updateStatus job.runningUpdate) ∈
            ((pipeline uuid broker).step ((pipeline uuid broker).run (.initial db replicas) pre) e).2)) ∧
    (((pipeline uuid broker).trace (.initial db replicas) es).countP (PipelineObs.publishes id) ≤ 1 →
      (∀ pre e mid, pre ++ e :: mid <+: es →
        Completes uuid broker id ((pipeline uuid broker).run (.initial db replicas) pre) e →
        ((pipeline uuid broker).run (.initial db replicas) pre).Spent id →
        (pipeline uuid broker).Along (fun s e => ¬ s.GivesBack id e)
          ((pipeline uuid broker).run (.initial db replicas) (pre ++ [e])) mid →
        ((pipeline uuid broker).run (.initial db replicas) (pre ++ e :: mid)).api.statusOf id =
          some "completed") ∧
      (∀ pre e, pre ++ [e] <+: es →
        Completes uuid broker id ((pipeline uuid broker).run (.initial db replicas) pre) e →
        ((pipeline uuid broker).run (.initial db replicas) pre).Attached id →
        (∀ call ∈ ((pipeline uuid broker).run (.initial db replicas) pre).late,
          call.backupId ≠ id.toString) →
        ((pipeline uuid broker).run (.initial db replicas) pre).Spent id) ∧
      ((pipeline uuid broker).Along (fun s e => ¬ s.GivesBack id e) (.initial db replicas) es →
        ∃ a b c, Pipeline.statuses uuid broker id (.initial db replicas) es =
          List.replicate a "pending" ++ List.replicate b "running" ++
            List.replicate c "completed")) := by
  refine ⟨?_, ?_, fun hpub => ⟨?_, ?_, fun hback => ?_⟩⟩
  · have h := run_history (R := StatusMoves) hdb es hun fun _ _ _ _ _ _ _ hmoves => hmoves
    generalize Pipeline.statuses uuid broker id (.initial db replicas) es = l at h
    cases l with
    | nil => exact ⟨0, [], rfl, by simp, by simp⟩
    | cons x l =>
        -- The first status is the one that a row is inserted with.
        obtain rfl := h.head x rfl
        exact pending_of_chain h.chain
  · rintro pre e ⟨post, rfl⟩ hcompleted hset
    rw [Machine.trace_append, Machine.trace_concat] at hun
    have hstep := step_statusOf uuid broker (run_sound pre) e hun.of_append.1.of_append.2
    rw [Machine.run_concat] at hset ⊢
    exact hstep.leaves_completed hcompleted hset
  · rintro pre e mid ⟨post, rfl⟩ hcompletes hspent hback
    rw [Machine.trace_append] at hun hpub
    rw [List.countP_append] at hpub
    exact completed_stays hun.of_append.1 (by omega) hcompletes hspent hback
  · rintro pre e ⟨post, rfl⟩ hcompletes hattached hlate
    rw [Machine.trace_append, Machine.trace_concat] at hun hpub
    rw [List.countP_append, List.countP_append] at hpub
    obtain ⟨job, result, hmakes, hby, hid⟩ := hcompletes.makes (run_sound pre)
      hun.of_append.1.of_append.2
    obtain ⟨⟨a, ha⟩, -⟩ := run_single uuid broker db replicas id pre (by omega)
    refine spent_of_makes ha hattached (List.countP_eq_zero.mpr fun call hcall => ?_) hmakes hby hid
    rw [Rpc.about, decide_eq_true_iff]
    exact hlate call hcall
  · have h := run_history (R := StatusAdvances) hdb es hun fun pre e x y hpre hx hy hmoves =>
      advances_of_stays hdb (fun pre e mid hpre hcompletes => by
        obtain ⟨post, rfl⟩ := hpre
        exact completed_stays_of_never hun hpub hback hcompletes) hpre hx hy hmoves
    generalize Pipeline.statuses uuid broker id (.initial db replicas) es = l at h
    cases l with
    | nil => exact ⟨0, 0, 0, rfl⟩
    | cons x l =>
        obtain rfl := h.head x rfl
        exact lifecycle_of_chain h.chain

/-! ### A job that is delivered twice -/

section Twice

/-- Nothing is there, and a channel in every replica. -/
def emptyPipeline : Pipeline := .initial .empty fun _ => ⟨⟨.connected, true⟩, .default⟩

/-- Backup `7` is created and enqueued, and worker `0` processes it; the
answer to its report is lost. -/
def handledOnce : List PipelineEvent :=
  let start (seq : ℕ) (request : Request) (newId : ℕ) : PipelineEvent :=
    .api (.start 0 seq ⟨"user", ⟨1⟩, [], 0, 0⟩ request ⟨⟨newId⟩, 0⟩)
  let step (seq : ℕ) : PipelineEvent := .api (.step ⟨⟨1⟩, seq⟩ {})
  let work (rpc : Fault) : PipelineEvent := .work 0 { oracle := ⟨⟨0⟩, 1⟩, rpc }
  [start 0 (.create ⟨"/data", false⟩) 7, step 0, step 0, step 0, start 1 (.enqueue ⟨7⟩) 0, step 1,
    step 1, step 1, .deliver 0, work .none, work .none, work .none, work .after]

/-- Worker `0` gives the message back, and worker `1` takes it. -/
def handledAgain : List PipelineEvent :=
  let work (w : ℕ) : PipelineEvent := .work w (.faultFree ⟨⟨0⟩, 2⟩)
  [work 0, work 0, .settle 0 0, .deliver 1, work 1, work 1]

theorem status_lifecycle_handledOnce :
    ∃ a b c, Pipeline.statuses .hyphenated .head ⟨7⟩ emptyPipeline handledOnce =
      List.replicate a "pending" ++ List.replicate b "running" ++
        List.replicate c "completed" := by
  refine ((status_lifecycle .hyphenated .head _ (fun r hr => by cases hr) handledOnce
    (untouched_of_changes rfl).1).2.2 (Nat.le_of_eq rfl)).2.2 (Machine.along_of_forall ?_ _)
  intro e he s
  simp only [handledOnce, List.mem_cons, List.not_mem_nil, or_false] at he
  rcases he with rfl | rfl | rfl | rfl | rfl | rfl | rfl | rfl | rfl | rfl | rfl | rfl | rfl <;>
    exact fun ⟨_, hback, _⟩ => hback

/-- The job has been published once, and nobody has patched or deleted the
row: it is completed, and then it is running again. -/
theorem not_status_lifecycle :
    Untouched ((pipeline .hyphenated .head).trace emptyPipeline (handledOnce ++ handledAgain)) ⟨7⟩ ∧
    ((pipeline .hyphenated .head).trace emptyPipeline (handledOnce ++ handledAgain)).countP
      (PipelineObs.publishes ⟨7⟩) = 1 ∧
    ((pipeline .hyphenated .head).run emptyPipeline handledOnce).api.statusOf ⟨7⟩ =
      some "completed" ∧
    ((pipeline .hyphenated .head).run emptyPipeline (handledOnce ++ handledAgain)).api.statusOf ⟨7⟩ =
      some "running" :=
  ⟨(untouched_of_changes rfl).1, rfl, rfl, by decide +kernel⟩

end Twice

end BackupService
