import BackupService.Quiescence
import Mathlib.Algebra.BigOperators.Group.Finset.Basic
import Mathlib.Algebra.GroupWithZero.Nat

/-!
Draining the queue.

From some state on nothing is published or requested any more, and nothing
goes wrong. Deliveries, the operations of the workers, acks and nacks may
still come in every order (`DrainStep`). A worker that cannot get rid of what
it has, since its channel is closed, its loop has ended, or it has let go of
a delivery without settling it, is replaced by another one.

Every such step brings the pipeline closer to its end, as long as no worker
has to give a job back (`potential_step`): a malformed message is rejected,
and a job whose row exists is acked. A job whose row has been deleted is
refused by the service every time, and the worker gives it back every time
(`due_step_none`).
-/

namespace BackupService

open Lib Program

/-! ### What a worker needs to come to an end -/

/-- If the settling of the delivery is confirmed, the loop goes on. -/
def Confirms : WorkerAction (Except LapinError Unit) → Prop
  | .ret _ => True
  | .op o k => (∀ r, Confirms (k r)) ∧ match o, k with
      | .settle _, k => k (.ok ()) = .ret (.ok ())
      | _, _ => True

theorem confirms_settle (d : Decision) : Confirms (settle d) := ⟨fun _ => trivial, rfl⟩

theorem confirms_handleDelivery (m : Message) : Confirms (handleDelivery m) := by
  cases m with
  | malformed error => exact ⟨fun _ => trivial, rfl⟩
  | job job =>
      rw [handleDelivery_job]
      refine ⟨fun r => ?_, trivial⟩
      rcases r with e | ack
      · exact confirms_settle _
      · refine ⟨fun r => ?_, trivial⟩
        rcases r with e | entropy
        · exact confirms_settle _
        · refine ⟨fun r => ?_, trivial⟩
          rcases r with e | ack <;> exact confirms_settle _

theorem atMost_handleDelivery (m : Message) : AtMost 4 (handleDelivery m) := by
  have hsettle : ∀ d n, AtMost (n + 1) (settle d) := fun d n r => atMost_ret n _
  cases m with
  | malformed error => exact fun r => atMost_ret _ _
  | job job =>
      rw [handleDelivery_job]
      intro r
      rcases r with e | ack
      · exact hsettle _ _
      · intro r
        rcases r with e | entropy
        · exact hsettle _ _
        · intro r
          rcases r with e | ack <;> exact hsettle _ _

/-- A delivery that a worker comes to an end with. -/
structure InHand.Ends (h : InHand) : Prop where
  atMost : ∃ n, AtMost n h.prog
  confirms : Confirms h.prog

theorem InHand.Ends.fresh (m : Message) : InHand.Ends ⟨m, none, handleDelivery m⟩ where
  atMost := ⟨4, atMost_handleDelivery m⟩
  confirms := confirms_handleDelivery m

theorem InHand.Ends.next {h : InHand} {o : WorkerOp}
    {k : o.Answer → WorkerAction (Except LapinError Unit)} (hends : h.Ends) (hprog : h.prog = .op o k)
    (m : Message) (d : Option Decision) (r : o.Answer) : InHand.Ends ⟨m, d, k r⟩ where
  atMost := by
    obtain ⟨n, hn⟩ := hends.atMost
    rw [hprog] at hn
    cases n with
    | zero => exact hn.elim
    | succ n => exact ⟨n, hn r⟩
  confirms := by
    have hconfirms := hends.confirms
    rw [hprog] at hconfirms
    exact hconfirms.1 r

/-- Whatever the consumer has, it can still get rid of. -/
structure Consumer.Live (c : Consumer) : Prop where
  connected : c.connected = true
  running : c.running = true
  handled : ∀ x ∈ c.handled, ∃ d, x.2 = some d
  inHand : ∀ h r, c.inHand = some h → h.prog = .ret r → r.isOk = true ∧ ∃ d, h.decision = some d

/-- What the first `N` workers and the broker do where nothing goes wrong. -/
inductive DrainStep (N : ℕ) (s : Pipeline) : PipelineEvent → Prop
  | deliver {w : ℕ} (hw : w < N) (hlive : (s.consumers w).Live) (hqueue : s.api.store.queue ≠ []) :
      DrainStep N s (.deliver w)
  | work {w : ℕ} {oracle : Oracle} (hw : w < N) (hlive : (s.consumers w).Live)
      (hbusy : (s.consumers w).inHand ≠ none ∨ (s.consumers w).buffer ≠ []) :
      DrainStep N s (.work w (.faultFree oracle))
  | settle {w i : ℕ} {m : Message} {d : Decision} (hw : w < N) (hlive : (s.consumers w).Live)
      (hi : (s.consumers w).handled[i]? = some (m, some d)) : DrainStep N s (.settle w i)
  /-- Another process takes the place of one that is lost. -/
  | close {w : ℕ} (hw : w < N) (hlost : ¬ (s.consumers w).Live) : DrainStep N s (.close w)

/-- The consumer has a message with `p` that is still to be handled from the
beginning, by itself or by the next one. -/
def Consumer.Due (p : Message → Prop) (c : Consumer) : Prop :=
  c.Holds Progress.Unmarked p ∨ ¬ c.Live ∧ ∃ m ∈ c.unacked, p m

def Pipeline.Due (s : Pipeline) (p : Message → Prop) : Prop :=
  (∃ m ∈ s.api.store.queue, p m) ∨ ∃ w, (s.consumers w).Due p

/-- Whatever the workers and the broker do, there is an end to it, and at the
end the queue is empty and nothing is left to be settled. -/
def Pipeline.Drains (uuid : UuidParser) (broker : Broker) (N : ℕ) (s : Pipeline) : Prop :=
  ∃ n, ∀ es, (pipeline uuid broker).Along (DrainStep N) s es → es.length ≤ n ∧
    ∃ more, (pipeline uuid broker).Along (DrainStep N) s (es ++ more) ∧
      ((pipeline uuid broker).run s (es ++ more)).Quiescent

/-! ### Operations where nothing goes wrong -/

section Exec

variable (uuid : UuidParser) (oracle : Oracle)

theorem call_updateStatus_ok {s : State} {msg : StatusUpdate} {id : Uuid}
    (hid : uuid.parse msg.backupId = .ok id) (hstatus : msg.status ∈ statuses)
    (hrow : (s.store.db.find id).isSome) :
    ∃ ack, (s.call uuid (.updateStatus msg) oracle {}).1 = .ok ack := by
  obtain ⟨message, hanswer⟩ := answer_found .stable oracle (accepted_updateStatus.mpr hstatus) hrow
  rw [s.call_eq uuid (.updateStatus msg) hid]
  exact ⟨_, hanswer⟩

theorem call_reportResult_ok {s : State} {result : ProcessingResult} {id : Uuid}
    (hid : uuid.parse result.backupId = .ok id) :
    ∃ ack, (s.call uuid (.reportResult result) oracle {}).1 = .ok ack := by
  rw [s.call_eq uuid (.reportResult result) hid]
  exact ⟨_, answer_reportResult .stable oracle⟩

/-- A call for a job fails only if it asks for a row that is not there. -/
theorem exec_calls_ok (desk : Desk) {job : BackupJob} {call : Rpc} (hcall : job.Calls call)
    (hrow : call = .updateStatus job.runningUpdate → (desk.api.store.db.find job.backupId).isSome) :
    ∃ ack, ((WorkerOp.rpc call).exec uuid (.faultFree oracle) desk).1 = .ok ack := by
  have hid := hcall.parse uuid
  obtain rfl | ⟨result, rfl, -⟩ := hcall
  · have hstatus : job.runningUpdate.status ∈ statuses := by simp [BackupJob.runningUpdate, statuses]
    obtain ⟨ack, hack⟩ := call_updateStatus_ok uuid oracle hid hstatus (hrow rfl)
    exact ⟨ack, congrArg (Except.mapError ProcessError.status) hack⟩
  · obtain ⟨ack, hack⟩ := @call_reportResult_ok uuid oracle desk.api result job.backupId hid
    exact ⟨ack, congrArg (Except.mapError ProcessError.status) hack⟩

end Exec

/-! ### How far the end is -/

section Weights

open Classical in
/-- A delivery that is given back costs another round. -/
noncomputable def InHand.weight (h : InHand) : ℕ :=
  h.prog.depth + if h.At .failed ∨ h.decision = some (.nack true) then 11 else 2

def handledWeight (x : Message × Option Decision) : ℕ := if x.2 = some (.nack true) then 10 else 1

open Classical in
noncomputable def Consumer.weight (c : Consumer) : ℕ :=
  if c.Live then 8 * c.buffer.length + c.inHand.elim 0 InHand.weight + (c.handled.map handledWeight).sum
  else 10 * c.deliveries.length + 1

/-- A bound on the steps that the broker and the first `N` workers still have
to do. -/
noncomputable def Pipeline.potential (N : ℕ) (s : Pipeline) : ℕ :=
  9 * s.api.store.queue.length + ∑ w ∈ Finset.range N, (s.consumers w).weight

theorem Consumer.Live.weight_eq {c : Consumer} (h : c.Live) : c.weight =
    8 * c.buffer.length + c.inHand.elim 0 InHand.weight + (c.handled.map handledWeight).sum := if_pos h

theorem InHand.weight_le (h : InHand) : h.weight ≤ h.prog.depth + 11 := by
  rw [weight]
  split <;> omega

theorem InHand.le_weight (h : InHand) : h.prog.depth + 2 ≤ h.weight := by
  rw [weight]
  split <;> omega

theorem InHand.At.weight_eq {h : InHand} (hat : h.At .failed) : h.weight = h.prog.depth + 11 := by
  rw [InHand.weight, if_pos (.inl hat)]

theorem InHand.weight_eq {h : InHand} (hfailed : ¬ h.At .failed) (hnack : h.decision ≠ some (.nack true)) :
    h.weight = h.prog.depth + 2 := by
  rw [weight, if_neg (not_or.mpr ⟨hfailed, hnack⟩)]

theorem weight_of_not_live {c : Consumer} (h : ¬ c.Live) : c.weight = 10 * c.deliveries.length + 1 :=
  if_neg h

end Weights

/-- What a consumer has done, for the queue and for itself. -/
structure Advances (q : List Message) (c : Consumer) (q' : List Message) (c' : Consumer) : Prop where
  live : c'.Live
  closer : 9 * q'.length + c'.weight < 9 * q.length + c.weight
  due : ∀ p, (∃ m ∈ q', p m) ∨ c'.Due p → (∃ m ∈ q, p m) ∨ c.Due p

section Live

variable {c : Consumer} {p : Message → Prop}

theorem Consumer.Live.due_iff (h : c.Live) : c.Due p ↔ c.Holds Progress.Unmarked p :=
  or_iff_left fun hlost => hlost.1 h

theorem Consumer.Live.env (h : c.Live) (e : WorkerEnv) : c.env e = e := by
  rw [Consumer.env, h.connected, Bool.and_true]

theorem live_empty : Consumer.Live {} where
  connected := rfl
  running := rfl
  handled _ hx := nomatch hx
  inHand _ _ hin := nomatch hin

/-- Where a worker is with a delivery that it can get rid of. -/
theorem InHand.At.unique {h : InHand} {g g' : Progress} (hat : h.At g) (hat' : h.At g')
    (hret : ∀ r, h.prog = .ret r → ∃ d, h.decision = some d) : g' = g := by
  cases hprog : h.prog with
  | ret r =>
      obtain ⟨d, hd⟩ := hret r hprog
      rw [hat.decision d hd, hat'.decision d hd]
  | op o k => exact hat.eq hat' (hat.not_settled hprog)

end Live

section Advance

variable {q : List Message} {c : Consumer}

theorem advances_deliver {m : Message} (hlive : c.Live) :
    Advances (m :: q) c q { c with buffer := c.buffer ++ [m] } := by
  have hlive' : Consumer.Live { c with buffer := c.buffer ++ [m] } :=
    ⟨hlive.connected, hlive.running, hlive.handled, hlive.inHand⟩
  refine ⟨hlive', ?_, fun p hdue => ?_⟩
  · rw [hlive.weight_eq, hlive'.weight_eq]
    simp only [List.length_append, List.length_cons, List.length_nil]
    omega
  · rw [hlive'.due_iff] at hdue
    obtain ⟨m', hm', hp⟩ | ⟨hc, ⟨m', hm', hp⟩ | hrest⟩ := hdue
    · exact .inl ⟨m', List.mem_cons_of_mem _ hm', hp⟩
    · rcases List.mem_append.mp hm' with hm' | hm'
      · exact .inr (.inl ⟨hc, .inl ⟨m', hm', hp⟩⟩)
      · exact .inl ⟨m', List.mem_cons.mpr (.inl (List.mem_singleton.mp hm')), hp⟩
    · exact .inr (.inl ⟨hc, .inr hrest⟩)

theorem advances_take {m : Message} {buffer : List Message} (hlive : c.Live) (hin : c.inHand = none)
    (hbuffer : c.buffer = m :: buffer) :
    Advances q c q { c with buffer, inHand := some ⟨m, none, handleDelivery m⟩ } := by
  have hfresh := InHand.At.fresh m
  have hlive' : Consumer.Live { c with buffer, inHand := some ⟨m, none, handleDelivery m⟩ } := by
    refine ⟨hlive.connected, hlive.running, hlive.handled, fun h r hin' hprog => ?_⟩
    obtain rfl := Option.some.inj hin'
    obtain ⟨d, hd⟩ := hfresh.through hprog
    cases hd
  have hweight : InHand.weight ⟨m, none, handleDelivery m⟩ ≤ 6 := by
    have hdepth := (atMost_handleDelivery m).depth_le
    rw [InHand.weight_eq (fun hfailed => by cases hfresh.eq hfailed (by simp)) (by simp)]
    exact Nat.add_le_add_right hdepth 2
  refine ⟨hlive', ?_, fun p hdue => ?_⟩
  · rw [hlive.weight_eq, hlive'.weight_eq, hin, hbuffer]
    simp only [List.length_cons, Option.elim]
    omega
  · rw [hlive'.due_iff] at hdue
    obtain hq | ⟨hc, ⟨m', hm', hp⟩ | ⟨h, g, hin', -, -, hp⟩ | hrest⟩ := hdue
    · exact .inl hq
    · exact .inr (.inl ⟨hc, .inl ⟨m', hbuffer ▸ List.mem_cons_of_mem _ hm', hp⟩⟩)
    · obtain rfl := Option.some.inj hin'
      exact .inr (.inl ⟨hc, .inl ⟨m, hbuffer ▸ List.mem_cons_self, hp⟩⟩)
    · exact .inr (.inl ⟨hc, .inr (.inr hrest)⟩)

theorem advances_ret {h : InHand} {g : Progress} {r : Except LapinError Unit} (hlive : c.Live)
    (hin : c.inHand = some h) (hat : h.At g) (hprog : h.prog = .ret r) :
    Advances q c q { c with
      running := c.running && r.isOk
      inHand := none
      handled := (h.message, h.decision) :: c.handled } := by
  obtain ⟨hok, d, hd⟩ := hlive.inHand h r hin hprog
  have hlive' : Consumer.Live { c with
      running := c.running && r.isOk
      inHand := none
      handled := (h.message, h.decision) :: c.handled } := by
    refine ⟨hlive.connected, ?_, fun x hx => ?_, fun h' r' hin' => ?_⟩
    · exact Bool.and_eq_true_iff.mpr ⟨hlive.running, hok⟩
    · rcases List.mem_cons.mp hx with rfl | hx
      · exact ⟨d, hd⟩
      · exact hlive.handled x hx
    · cases hin'
  refine ⟨hlive', ?_, fun p hdue => ?_⟩
  · have hweight : handledWeight (h.message, h.decision) < h.weight := by
      have hle := h.le_weight
      rw [handledWeight]
      split
      · rw [InHand.weight, if_pos (.inr ‹_›)]
        omega
      · omega
    rw [hlive.weight_eq, hlive'.weight_eq, hin]
    simp only [List.map_cons, List.sum_cons, Option.elim]
    omega
  · rw [hlive'.due_iff] at hdue
    obtain hq | ⟨hc, hbuffer | ⟨h', g', hin', -⟩ | ⟨x, hx, hp, hback⟩⟩ := hdue
    · exact .inl hq
    · exact .inr (.inl ⟨hc, .inl hbuffer⟩)
    · cases hin'
    · rcases List.mem_cons.mp hx with rfl | hx
      · -- Nothing is given back that the worker was not going to give back.
        refine .inr (.inl ⟨hc, .inr (.inl ⟨h, g, hin, hat, ?_, hp⟩)⟩)
        rw [hat.decision d hd]
        exact ⟨hback d hd, by simp⟩
      · exact .inr (.inl ⟨hc, .inr (.inr ⟨x, hx, hp, hback⟩)⟩)

theorem advances_settle (broker : Broker) {i : ℕ} {m : Message} {d : Decision} (hlive : c.Live)
    (hi : c.handled[i]? = some (m, some d)) :
    Advances q c (d.settle broker m q) { c with handled := c.handled.eraseIdx i } := by
  have hlive' : Consumer.Live { c with handled := c.handled.eraseIdx i } :=
    ⟨hlive.connected, hlive.running, fun x hx => hlive.handled x (List.mem_of_mem_eraseIdx hx),
      hlive.inHand⟩
  refine ⟨hlive', ?_, fun p hdue => ?_⟩
  · obtain ⟨hlt, hget⟩ := List.getElem?_eq_some_iff.mp hi
    have hsum : (c.handled.map handledWeight).sum =
        handledWeight (m, some d) + ((c.handled.eraseIdx i).map handledWeight).sum := by
      rw [← ((List.getElem_cons_eraseIdx_perm hlt).map handledWeight).sum_eq, hget, List.map_cons,
        List.sum_cons]
    rw [hlive.weight_eq, hlive'.weight_eq]
    dsimp only
    rw [hsum]
    rcases d with _ | _ | _
    · simp only [Decision.settle, handledWeight]
      split <;> omega
    · simp only [Decision.settle, handledWeight]
      split <;> omega
    · simp only [Decision.settle, handledWeight, if_true, (broker.perm m q).length_eq, List.length_cons]
      omega
  · rw [hlive'.due_iff] at hdue
    obtain ⟨m', hm', hp⟩ | ⟨hc, hbuffer | hhand | ⟨x, hx, hrest⟩⟩ := hdue
    · rcases d with _ | _ | _
      · exact .inl ⟨m', hm', hp⟩
      · exact .inl ⟨m', hm', hp⟩
      · rcases List.mem_cons.mp ((broker.perm m q).mem_iff.mp hm') with rfl | hm'
        · refine .inr (.inl ⟨hlive.connected, .inr (.inr ⟨_, List.mem_of_getElem? hi, hp, ?_⟩)⟩)
          rintro d ⟨⟩
          rfl
        · exact .inl ⟨m', hm', hp⟩
    · exact .inr (.inl ⟨hc, .inl hbuffer⟩)
    · exact .inr (.inl ⟨hc, .inr (.inl hhand)⟩)
    · exact .inr (.inl ⟨hc, .inr (.inr ⟨x, List.mem_of_mem_eraseIdx hx, hrest⟩)⟩)

theorem length_foldr_requeue (broker : Broker) (ms q : List Message) :
    (ms.foldr broker.requeue q).length = ms.length + q.length := by
  induction ms with
  | nil => simp
  | cons m ms ih =>
      rw [List.foldr_cons, (broker.perm _ _).length_eq, List.length_cons, ih, List.length_cons]
      omega

theorem advances_close (broker : Broker) (hlost : ¬ c.Live) :
    Advances q c (c.unacked.foldr broker.requeue q) {} := by
  refine ⟨live_empty, ?_, fun p hdue => ?_⟩
  · have hunacked : c.unacked.length ≤ c.deliveries.length := by
      rw [Consumer.unacked]
      split
      · exact le_rfl
      · exact Nat.zero_le _
    have hempty : ({} : Consumer).weight = 0 := live_empty.weight_eq
    rw [weight_of_not_live hlost, hempty, length_foldr_requeue]
    omega
  · rw [live_empty.due_iff] at hdue
    obtain ⟨m, hm, hp⟩ | ⟨-, ⟨m, hm, -⟩ | ⟨h, g, hin, -⟩ | ⟨x, hx, -⟩⟩ := hdue
    · rcases mem_foldr_requeue.mp hm with hm | hm
      · exact .inr (.inr ⟨hlost, m, hm, hp⟩)
      · exact .inl ⟨m, hm, hp⟩
    · cases hm
    · cases hin
    · cases hx

end Advance

/-! ### One operation -/

section Op

variable {uuid : UuidParser} {oracle : Oracle} {api : State} {c : Consumer} {h : InHand} {g : Progress}
  {o : WorkerOp} {k : o.Answer → WorkerAction (Except LapinError Unit)}

variable (uuid oracle) in
/-- A worker that is going to give a delivery back has failed before. -/
theorem failed_of_after (hat : h.At g) (hprog : h.prog = .op o k)
    (hrow : g = .start → ∀ job, h.message = .job job → (api.store.db.find job.backupId).isSome)
    (hafter : (g.after o (o.exec uuid (.faultFree oracle) ⟨api, h.decision⟩).1).Unmarked) :
    g = .failed := by
  have hallow := hat.allow hprog
  cases o with
  | rpc call =>
      obtain ⟨job, hjob, hcase⟩ := hallow
      have hcall : job.Calls call := hcase.imp And.right And.right
      obtain ⟨ack, hack⟩ := exec_calls_ok uuid oracle ⟨api, h.decision⟩ hcall fun hupdate => by
        obtain ⟨hstart, -⟩ | ⟨-, _, hreport, -⟩ := hcase
        · exact hrow hstart job hjob
        · cases hupdate.symm.trans hreport
      rw [hack] at hafter
      cases call with
      | updateStatus msg => exact (hafter.2 rfl).elim
      | reportResult result => exact hafter.1.elim
  | analyze data =>
      obtain rfl : g = .running := hallow
      exact (hafter.2 rfl).elim
  | settle d =>
      have hback : d.removes = false := settled_of_open hafter.1
      rcases h with ⟨_ | _, _, _⟩
      · obtain ⟨-, rfl⟩ | ⟨hfailed, -⟩ := hallow
        · cases hback
        · exact hfailed
      · obtain ⟨-, rfl⟩ := hallow
        cases hback

variable (uuid oracle api) in
theorem live_op (hlive : c.Live) (hat : h.At g) (hends : h.Ends) (hprog : h.prog = .op o k) :
    Consumer.Live { c with inHand := some ⟨h.message,
      (o.exec uuid (.faultFree oracle) ⟨api, h.decision⟩).2.decision,
      k (o.exec uuid (.faultFree oracle) ⟨api, h.decision⟩).1⟩ } := by
  refine ⟨hlive.connected, hlive.running, hlive.handled, fun h' r hin hprog' => ?_⟩
  obtain rfl := Option.some.inj hin
  obtain ⟨d, hd⟩ := (hat.next hprog uuid (.faultFree oracle) api).through hprog'
  have hconfirms := hends.confirms
  rw [hprog] at hconfirms
  cases o with
  | rpc call =>
      generalize ((WorkerOp.rpc call).exec uuid (.faultFree oracle) ⟨api, h.decision⟩).1 = answer at hd
      rcases answer with e | ack
      · rw [after_error] at hd
        cases hd
      · cases call <;> cases hd
  | analyze data => exact (hat.not_settled hprog d hd).elim
  | settle d =>
      obtain rfl : r = .ok () := Program.ret.inj (hprog'.symm.trans hconfirms.2)
      exact ⟨rfl, d, rfl⟩

variable (uuid oracle api) in
theorem advances_op {q : List Message} (hlive : c.Live) (hin : c.inHand = some h)
    (hat : h.At g) (hends : h.Ends) (hprog : h.prog = .op o k)
    (hrow : g = .start → ∀ job, h.message = .job job → (api.store.db.find job.backupId).isSome) :
    Advances q c q { c with inHand := some ⟨h.message,
      (o.exec uuid (.faultFree oracle) ⟨api, h.decision⟩).2.decision,
      k (o.exec uuid (.faultFree oracle) ⟨api, h.decision⟩).1⟩ } := by
  have hlive' := live_op uuid oracle api hlive hat hends hprog
  have hnext := hat.next hprog uuid (.faultFree oracle) api
  have hfailed := failed_of_after uuid oracle hat hprog hrow
  -- where the worker is after the operation, is what `after` says
  have hafter : ∀ g', InHand.At ⟨h.message,
      (o.exec uuid (.faultFree oracle) ⟨api, h.decision⟩).2.decision,
      k (o.exec uuid (.faultFree oracle) ⟨api, h.decision⟩).1⟩ g' → g'.Unmarked → g = .failed := by
    intro g' hat' hg'
    refine hfailed ?_
    rwa [← hnext.unique hat' fun r hr => (hlive'.inHand _ r rfl hr).2]
  refine ⟨hlive', ?_, fun p hdue => ?_⟩
  · obtain ⟨n, hn⟩ := hends.atMost
    rw [hprog] at hn
    have hdepth := hn.depth_lt (o.exec uuid (.faultFree oracle) ⟨api, h.decision⟩).1
    have hweight : InHand.weight ⟨h.message,
        (o.exec uuid (.faultFree oracle) ⟨api, h.decision⟩).2.decision,
        k (o.exec uuid (.faultFree oracle) ⟨api, h.decision⟩).1⟩ < h.weight := by
      rw [← hprog] at hdepth
      by_cases hg : g = .failed
      · subst hg
        rw [hat.weight_eq]
        exact (InHand.weight_le _).trans_lt (Nat.add_lt_add_right hdepth 11)
      · rw [InHand.weight_eq (fun hfail => hg (hafter _ hfail ⟨trivial, by simp⟩)) fun hnack => ?_]
        · exact (Nat.add_lt_add_right hdepth 2).trans_le h.le_weight
        · refine hg (hfailed ?_)
          rw [hnext.decision _ hnack]
          exact ⟨rfl, by simp⟩
    rw [hlive.weight_eq, hlive'.weight_eq, hin]
    simp only [Option.elim]
    omega
  · rw [hlive'.due_iff] at hdue
    obtain hq | ⟨hc, hbuffer | ⟨h', g', hin', hat', hg', hp⟩ | hrest⟩ := hdue
    · exact .inl hq
    · exact .inr (.inl ⟨hc, .inl hbuffer⟩)
    · obtain rfl := Option.some.inj hin'
      obtain rfl := hafter g' hat' hg'
      exact .inr (.inl ⟨hc, .inr (.inl ⟨h, _, hin, hat, ⟨trivial, by simp⟩, hp⟩)⟩)
    · exact .inr (.inl ⟨hc, .inr (.inr hrest)⟩)

end Op

/-! ### One step -/

/-- Every job that is still to be handled is about a row that exists. -/
def Pipeline.Backed (s : Pipeline) : Prop :=
  ∀ id, s.Due (Message.For id) → (s.api.store.db.find id).isSome

/-- The first `N` workers are all there are, and they keep to their program. -/
structure Pipeline.Staffed (N : ℕ) (s : Pipeline) : Prop where
  sound : s.Sound
  hands : ∀ w h, (s.consumers w).inHand = some h → h.Ends
  others : ∀ w, N ≤ w → s.consumers w = {}

section Step

variable {uuid : UuidParser} {broker : Broker} {N : ℕ} {s : Pipeline} {e : PipelineEvent}

theorem DrainStep.worker_lt (h : DrainStep N s e) : ∀ w, e.worker = some w → w < N := by
  rintro w hworker
  cases h with
  | deliver hw | work hw | settle hw | close hw => exact Option.some.inj hworker ▸ hw

theorem staffed_step (h : s.Staffed N) (he : ∀ w, e.worker = some w → w < N) :
    ((pipeline uuid broker).step s e).1.Staffed N where
  sound := sound_step h.sound e
  hands w hand hin := by
    obtain hold | ⟨m, -, rfl⟩ | ⟨env, h₀, o, k, hold, hprog, -, rfl⟩ := step_inHand hin
    · exact h.hands w hand hold
    · exact .fresh m
    · exact (h.hands w h₀ hold).next hprog _ _ _
  others w hw := by
    rw [step_consumers fun hworker => absurd (he w hworker) (not_lt.mpr hw)]
    exact h.others w hw

variable (uuid broker) in
/-- What a step does where nothing goes wrong. -/
theorem drain_step (hstaffed : s.Staffed N) (hbacked : s.Backed) (h : DrainStep N s e) :
    ∃ w < N, ∃ c, ((pipeline uuid broker).step s e).1.consumers = Function.update s.consumers w c ∧
      Advances s.api.store.queue (s.consumers w)
        ((pipeline uuid broker).step s e).1.api.store.queue c := by
  cases h with
  | @deliver w hw hlive hqueue =>
      obtain ⟨m, queue, hqueue⟩ := List.exists_cons_of_ne_nil hqueue
      have hstep : s.deliver w = (s.setQueue queue).setConsumer w
          { s.consumers w with buffer := (s.consumers w).buffer ++ [m] } := by
        simp only [Pipeline.deliver, hqueue, hlive.connected]
      simp only [pipeline, hstep, hqueue]
      exact ⟨w, hw, _, rfl, advances_deliver hlive⟩
  | @work w oracle hw hlive hbusy =>
      simp only [pipeline]
      cases hin : (s.consumers w).inHand with
      | none =>
          obtain ⟨m, buffer, hbuffer⟩ := List.exists_cons_of_ne_nil (hbusy.resolve_left (· hin))
          have hstep : (s.work uuid w (.faultFree oracle)).1 = s.setConsumer w
              { s.consumers w with buffer, inHand := some ⟨m, none, handleDelivery m⟩ } := by
            simp only [Pipeline.work, hin, hlive.running, hbuffer]
          rw [hstep]
          exact ⟨w, hw, _, rfl, advances_take hlive hin hbuffer⟩
      | some h =>
          obtain ⟨g, hat⟩ := hstaffed.sound.hands w h hin
          cases hprog : h.prog with
          | ret r =>
              have hstep : (s.work uuid w (.faultFree oracle)).1 = s.setConsumer w
                  { s.consumers w with
                    running := (s.consumers w).running && r.isOk
                    inHand := none
                    handled := (h.message, h.decision) :: (s.consumers w).handled } := by
                simp only [Pipeline.work, hin, hprog]
              rw [hstep]
              exact ⟨w, hw, _, rfl, advances_ret hlive hin hat hprog⟩
          | op o k =>
              have hqueue : (s.work uuid w (.faultFree oracle)).1.api.store.queue =
                  s.api.store.queue := by
                simp only [Pipeline.work, hin, hprog, setConsumer_api, exec_worker_queue]
              rw [hqueue]
              refine ⟨w, hw, _, ?_, advances_op uuid oracle s.api hlive hin hat (hstaffed.hands w h hin) hprog ?_⟩
              · simp only [Pipeline.work, hin, hprog, hlive.env]
                rfl
              · rintro rfl job hjob
                refine hbacked _ (.inr ⟨w, .inl ⟨hlive.connected, .inr (.inl ⟨h, _, hin, hat, ?_, ?_⟩)⟩⟩)
                · exact ⟨trivial, by simp⟩
                · exact ⟨job, hjob, rfl⟩
  | @settle w i m d hw hlive hi =>
      have hstep : (s.settle broker w i).1 = (s.setQueue (d.settle broker m s.api.store.queue)).setConsumer
          w { s.consumers w with handled := (s.consumers w).handled.eraseIdx i } := by
        simp only [Pipeline.settle, hlive.connected, hi]
      simp only [pipeline, hstep]
      exact ⟨w, hw, _, rfl, advances_settle broker hlive hi⟩
  | @close w hw hlost => exact ⟨w, hw, {}, rfl, advances_close broker hlost⟩

variable (uuid broker) in
/-- Every step brings the pipeline closer to its end. -/
theorem potential_step (hstaffed : s.Staffed N) (hbacked : s.Backed) (h : DrainStep N s e) :
    ((pipeline uuid broker).step s e).1.potential N < s.potential N := by
  obtain ⟨w, hw, c, hconsumers, hadvances⟩ := drain_step uuid broker hstaffed hbacked h
  have hmem : w ∈ Finset.range N := Finset.mem_range.mpr hw
  have hrest : ∑ w' ∈ (Finset.range N).erase w, (Function.update s.consumers w c w').weight =
      ∑ w' ∈ (Finset.range N).erase w, (s.consumers w').weight :=
    Finset.sum_congr rfl fun w' hw' => by rw [Function.update_of_ne (Finset.ne_of_mem_erase hw')]
  have hcloser := hadvances.closer
  rw [Pipeline.potential, Pipeline.potential, hconsumers, ← Finset.add_sum_erase _ _ hmem,
    ← Finset.add_sum_erase _ (fun w => (s.consumers w).weight) hmem, hrest, Function.update_self]
  omega

/-- Handling a delivery does not make a row come or go. -/
theorem exec_worker_find_isSome (env : WorkerEnv) (desk : Desk) {o : WorkerOp}
    (ho : ∀ call, o = .rpc call → ∃ job : BackupJob, job.Calls call) (id : Uuid) :
    ((o.exec uuid env desk).2.api.store.db.find id).isSome = (desk.api.store.db.find id).isSome := by
  by_cases hrpc : ∃ call, o = .rpc call
  · obtain ⟨call, rfl⟩ := hrpc
    obtain ⟨job, hcall⟩ := ho call rfl
    rcases exec_rpc uuid env desk (hcall.parse uuid) with hdb | ⟨hdb, -⟩
    · rw [hdb, exec_statement_snd, find_update_isSome]
    · rw [hdb]
  · rw [exec_worker_db uuid env desk fun call h => hrpc ⟨call, h⟩]

theorem drain_find_isSome (hsound : s.Sound) (h : DrainStep N s e) (id : Uuid) :
    (((pipeline uuid broker).step s e).1.api.store.db.find id).isSome =
      (s.api.store.db.find id).isSome := by
  cases h with
  | deliver =>
      simp only [pipeline, Pipeline.deliver]
      split <;> rfl
  | settle =>
      simp only [pipeline, Pipeline.settle]
      split <;> rfl
  | close => rfl
  | @work w oracle =>
      have hworks := works uuid s w (.faultFree oracle)
      simp only [pipeline]
      generalize (s.work uuid w (.faultFree oracle)).1 = s', (s.work uuid w (.faultFree oracle)).2 = obs
        at hworks
      cases hworks with
      | idle | take | ret => rfl
      | @op hand o _ env hin hprog =>
          refine exec_worker_find_isSome env ⟨s.api, hand.decision⟩ (fun call ho => ?_) id
          subst ho
          obtain ⟨g, hat⟩ := hsound.hands w hand hin
          obtain ⟨job, -, hcall⟩ := hat.calls hprog
          exact ⟨job, hcall⟩

theorem backed_step (hstaffed : s.Staffed N) (hbacked : s.Backed) (h : DrainStep N s e) :
    ((pipeline uuid broker).step s e).1.Backed := by
  obtain ⟨w, hw, c, hconsumers, hadvances⟩ := drain_step uuid broker hstaffed hbacked h
  intro id hdue
  rw [drain_find_isSome hstaffed.sound h]
  refine hbacked id ?_
  rcases hdue with hqueue | ⟨w', hdue⟩
  · exact (hadvances.due _ (.inl hqueue)).imp_right fun hdue => ⟨w, hdue⟩
  · rw [hconsumers] at hdue
    by_cases hne : w' = w
    · subst hne
      rw [Function.update_self] at hdue
      exact (hadvances.due _ (.inr hdue)).imp_right fun hdue => ⟨w', hdue⟩
    · rw [Function.update_of_ne hne] at hdue
      exact .inr ⟨w', hdue⟩

/-- As long as there is something left, there is something to be done. -/
theorem exists_drainStep (hN : 0 < N) (hstaffed : s.Staffed N) (h : ¬ s.Quiescent) :
    ∃ e, DrainStep N s e := by
  by_cases hlost : ∃ w < N, ¬ (s.consumers w).Live
  · obtain ⟨w, hw, hlost⟩ := hlost
    exact ⟨_, .close hw hlost⟩
  · have hlive : ∀ w < N, (s.consumers w).Live := fun w hw => by
      by_contra hnot
      exact hlost ⟨w, hw, hnot⟩
    by_cases hqueue : s.api.store.queue = []
    · obtain ⟨w, hw⟩ : ∃ w, (s.consumers w).unacked ≠ [] := by
        by_contra hnone
        exact h ⟨hqueue, fun w => by_contra fun hw => hnone ⟨w, hw⟩⟩
      have hwN : w < N := by
        by_contra hge
        rw [hstaffed.others w (not_lt.mp hge)] at hw
        exact hw rfl
      by_cases hbusy : (s.consumers w).inHand ≠ none ∨ (s.consumers w).buffer ≠ []
      · exact ⟨.work w (.faultFree ⟨⟨0⟩, 0⟩), .work hwN (hlive w hwN) hbusy⟩
      · obtain ⟨hin, hbuffer⟩ := not_or.mp hbusy
        obtain ⟨x, handled, hx⟩ : ∃ x handled, (s.consumers w).handled = x :: handled := by
          refine List.exists_cons_of_ne_nil fun hnil => hw ?_
          rw [Consumer.unacked, Consumer.deliveries, hnil, not_not.mp hin, not_not.mp hbuffer]
          split <;> rfl
        obtain ⟨d, hd⟩ := (hlive w hwN).handled x (hx ▸ List.mem_cons_self)
        have hi : (s.consumers w).handled[0]? = some (x.1, some d) := by
          rw [hx, ← hd]
          rfl
        exact ⟨_, .settle hwN (hlive w hwN) hi⟩
    · exact ⟨_, .deliver hN (hlive 0 hN) hqueue⟩

theorem due_of_holds {p : Message → Prop} (h : s.Holds Progress.Unmarked p) : s.Due p :=
  h.imp_right fun ⟨w, h⟩ => ⟨w, .inl h⟩

/-- A job whose row is gone is given back. -/
theorem holds_step_none (h : DrainStep N s e) {id : Uuid}
    (hrow : s.api.store.db.find id = none) (hholds : s.Holds Progress.Unmarked (Message.For id)) :
    ((pipeline uuid broker).step s e).1.Holds Progress.Unmarked (Message.For id) := by
  cases h with
  | deliver => exact hholds.deliver
  | settle => exact hholds.settle
  | close => exact hholds.requeue
  | @work w oracle hw hlive hbusy =>
      refine hholds.works (works uuid s w _) ⟨trivial, by simp⟩ (fun d hd => settled_of_open hd.1) ?_
      intro h g o k hin hprog hat hg hfor
      by_cases ho : ∀ call, o ≠ .rpc call
      · exact (open_after hat hprog ho hfor hg.1 _).2 hg
      · obtain ⟨call, rfl⟩ : ∃ call, o = .rpc call := by simpa using ho
        obtain ⟨job, hjob, ⟨-, rfl⟩ | ⟨hrunning, -⟩⟩ := hat.allow hprog
        · obtain ⟨job', hjob', rfl⟩ := hfor
          obtain rfl := Message.job.inj (hjob.symm.trans hjob')
          exact after_of_error (.inr rfl)
            (exec_updateStatus_none uuid _ ⟨s.api, h.decision⟩ (uuid.parse_toString _) hrow)
        · exact (hg.2 hrunning).elim

/-- And so it never comes to an end. -/
theorem due_step_none (h : DrainStep N s e) {id : Uuid}
    (hrow : s.api.store.db.find id = none) (hdue : s.Due (Message.For id)) :
    ((pipeline uuid broker).step s e).1.Due (Message.For id) := by
  obtain hqueue | ⟨w, hholds | ⟨hlost, m, hm, hp⟩⟩ := hdue
  · exact due_of_holds (holds_step_none h hrow (.inl hqueue))
  · exact due_of_holds (holds_step_none h hrow (.inr ⟨w, hholds⟩))
  · by_cases hworker : e.worker = some w
    · cases h with
      | deliver _ hlive | work _ hlive | settle _ hlive =>
          exact (hlost (Option.some.inj hworker ▸ hlive)).elim
      | close =>
          obtain rfl := Option.some.inj hworker
          exact .inl ⟨m, mem_foldr_requeue.mpr (.inl hm), hp⟩
    · refine .inr ⟨w, .inr ?_⟩
      rw [step_consumers hworker]
      exact ⟨hlost, m, hm, hp⟩

end Step

/-! ### All steps -/

section Drain

variable {uuid : UuidParser} {broker : Broker} {N : ℕ} {s : Pipeline} {es : List PipelineEvent}

/-- There are no more steps than the potential says. -/
theorem drain_length (hstaffed : s.Staffed N) (hbacked : s.Backed)
    (hes : (pipeline uuid broker).Along (DrainStep N) s es) :
    es.length + ((pipeline uuid broker).run s es).potential N ≤ s.potential N ∧
      ((pipeline uuid broker).run s es).Staffed N ∧ ((pipeline uuid broker).run s es).Backed := by
  induction es generalizing s with
  | nil => exact ⟨(Nat.zero_add _).le, hstaffed, hbacked⟩
  | cons e es ih =>
      obtain ⟨hlength, hrest⟩ := ih (staffed_step hstaffed hes.1.worker_lt)
        (backed_step hstaffed hbacked hes.1) hes.2
      have hpotential := potential_step uuid broker hstaffed hbacked hes.1
      refine ⟨?_, hrest⟩
      rw [List.length_cons, Machine.run_cons]
      omega

variable (uuid broker) in
theorem drain_completes (hN : 0 < N) (hstaffed : s.Staffed N) (hbacked : s.Backed) :
    ∃ more, (pipeline uuid broker).Along (DrainStep N) s more ∧
      ((pipeline uuid broker).run s more).Quiescent := by
  induction hn : s.potential N using Nat.strong_induction_on generalizing s with
  | h n ih =>
      subst hn
      by_cases hquiet : s.Quiescent
      · exact ⟨[], trivial, hquiet⟩
      · obtain ⟨e, he⟩ := exists_drainStep hN hstaffed hquiet
        obtain ⟨more, hmore, hquiet'⟩ := ih _ (potential_step uuid broker hstaffed hbacked he) (staffed_step hstaffed he.worker_lt) (backed_step hstaffed hbacked he) rfl
        exact ⟨e :: more, ⟨he, hmore⟩, hquiet'⟩

theorem due_run_none (hstaffed : s.Staffed N) {id : Uuid} (hrow : s.api.store.db.find id = none)
    (hdue : s.Due (Message.For id)) (hes : (pipeline uuid broker).Along (DrainStep N) s es) :
    ((pipeline uuid broker).run s es).Due (Message.For id) := by
  induction es generalizing s with
  | nil => exact hdue
  | cons e es ih =>
      refine ih (staffed_step hstaffed hes.1.worker_lt) ?_ (due_step_none hes.1 hrow hdue)
        hes.2
      rw [← Option.not_isSome_iff_eq_none, drain_find_isSome hstaffed.sound hes.1]
      simp [hrow]

theorem Pipeline.Quiescent.not_due (h : s.Quiescent) (p : Message → Prop) : ¬ s.Due p := by
  rintro (hqueue | ⟨w, hholds | ⟨-, m, hm, -⟩⟩)
  · exact h.not_holds (P := Progress.Unmarked) (.inl hqueue)
  · exact h.not_holds (.inr ⟨w, hholds⟩)
  · rw [h.unacked w] at hm
    cases hm

variable (uuid broker) in
/-- **The pipeline drains** just if every job that is still to be handled is
about a row that exists. -/
theorem drains_iff (hN : 0 < N) (hstaffed : s.Staffed N) : s.Drains uuid broker N ↔ s.Backed := by
  constructor
  · rintro ⟨n, hn⟩ id hdue
    by_contra hrow
    obtain ⟨-, more, hmore, hquiet⟩ := hn [] trivial
    exact hquiet.not_due _ (due_run_none hstaffed (Option.not_isSome_iff_eq_none.mp hrow) hdue hmore)
  · intro hbacked
    refine ⟨s.potential N, fun es hes => ?_⟩
    obtain ⟨hlength, hstaffed', hbacked'⟩ := drain_length hstaffed hbacked hes
    obtain ⟨more, hmore, hquiet⟩ := drain_completes uuid broker hN hstaffed' hbacked'
    refine ⟨by omega, more, Machine.along_append.mpr ⟨hes, hmore⟩, ?_⟩
    rwa [Machine.run_append]

end Drain

/-! ### Rows that jobs are about -/

section Backed

variable {uuid : UuidParser} {broker : Broker}

/-- No row is deleted that a job is pending for. -/
def DeletesUnqueued (uuid : UuidParser) (broker : Broker) (s : Pipeline)
    (es : List PipelineEvent) : Prop :=
  ∀ pre e job, pre ++ [e] <+: es →
    .deleted job.backupId ∈ ((pipeline uuid broker).step ((pipeline uuid broker).run s pre) e).2 →
      ¬ ((pipeline uuid broker).run s pre).Pending job

/-- The observation is that of a deletion. -/
def PipelineObs.deletes : PipelineObs → Bool
  | deleted _ => true
  | _ => false

theorem deletesUnqueued_of_trace {s : Pipeline} {es : List PipelineEvent}
    (h : ((pipeline uuid broker).trace s es).any PipelineObs.deletes = false) :
    DeletesUnqueued uuid broker s es := by
  rintro pre e job ⟨post, rfl⟩ hdelete
  refine (List.any_eq_false.mp h (.deleted job.backupId) ?_ rfl).elim
  rw [Machine.trace_append, Machine.trace_concat]
  exact List.mem_append_left _ (List.mem_append_right _ hdelete)

theorem step_find_isSome {s : Pipeline} (h : s.Sound) {e : PipelineEvent} {id : Uuid}
    (hid : (s.api.store.db.find id).isSome)
    (hdelete : .deleted id ∉ ((pipeline uuid broker).step s e).2) :
    ((((pipeline uuid broker).step s e).1.api.store.db.find id)).isSome := by
  obtain hdb | ⟨order, oracle, tenantId, q, -, -, hdb, hobs⟩ | ⟨_, call, id', -, hdb⟩ :=
    step_db uuid broker h e
  · rwa [hdb]
  · rw [hobs, hdb] at hdelete
    rw [hdb]
    by_cases hq : ∃ tenantId', q = .deleteBackup id tenantId'
    · obtain ⟨tenantId', rfl⟩ := hq
      simp only [Sql.effects] at hdelete
      split at hdelete
      · rename_i hsame
        rwa [hsame]
      · exact (hdelete List.mem_cons_self).elim
    · exact exec_find_isSome order oracle hid fun tenantId' heq => hq ⟨tenantId', heq⟩
  · rw [hdb, exec_statement_snd, find_update_isSome]
    exact hid

theorem run_backed {db : Table} {replicas : ℕ → Replica} {es : List PipelineEvent}
    (hes : DeletesUnqueued uuid broker (.initial db replicas) es) {job : BackupJob}
    (hjob : ((pipeline uuid broker).run (.initial db replicas) es).Pending job) :
    ((((pipeline uuid broker).run (.initial db replicas) es).api.store.db.find
      job.backupId)).isSome := by
  induction es using Machine.run_induction generalizing job with
  | hnil =>
      rcases hjob with (hqueue | ⟨w, hw⟩) | ⟨_, _, _, hth, -⟩
      · cases hqueue
      · cases hw
      · cases hth
  | hsnoc es e ih =>
      rw [Machine.run_concat] at hjob ⊢
      obtain hold | ⟨b, hfind, rfl, hdb⟩ := pending_step (run_sound es) hjob
      · refine step_find_isSome (run_sound es) (ih ?_ hold) fun hdelete => ?_
        · exact fun pre e' job' hpart =>
            hes pre e' job' (hpart.trans (List.prefix_append es [e]))
        · exact hes es e job List.prefix_rfl hdelete hold
      · rw [hdb]
        exact Option.isSome_iff_exists.mpr ⟨b, hfind⟩

end Backed

/-- The workers of a run are the only ones there are. -/
theorem run_staffed (uuid : UuidParser) (broker : Broker) (db : Table) (replicas : ℕ → Replica)
    {N : ℕ} {es : List PipelineEvent} (hes : ∀ e ∈ es, ∀ w, e.worker = some w → w < N) :
    ((pipeline uuid broker).run (.initial db replicas) es).Staffed N := by
  refine (pipeline uuid broker).run_preserves (fun s e h he => staffed_step h he) ?_ hes
  exact ⟨sound_initial db replicas, fun _ _ hin => (nomatch hin), fun _ _ => rfl⟩

/-- What is still to be handled is pending. -/
theorem Pipeline.Due.pending {s : Pipeline} {id : Uuid} (h : s.Due (Message.For id)) :
    ∃ job, job.backupId = id ∧ s.Pending job := by
  obtain ⟨m, hhas, job, rfl, hid⟩ : ∃ m, s.Has m ∧ Message.For id m := by
    obtain ⟨m, hm, hp⟩ | ⟨w, hholds | ⟨-, m, hm, hp⟩⟩ := h
    · exact ⟨m, .inl hm, hp⟩
    · obtain ⟨m, hm, hp⟩ := hholds.exists_unacked
      exact ⟨m, .inr ⟨w, hm⟩, hp⟩
    · exact ⟨m, .inr ⟨w, hm⟩, hp⟩
  exact ⟨job, hid, .inl hhas⟩

/-- **Draining.** In every state that a run of `N` workers reaches, the
broker and the workers come to an end, with nothing on the queue and nothing
to be settled, just if every job that is still to be handled is about a row
that exists. That is so in every run in which no request deletes a row that a
job is pending for. -/
theorem queue_drains (uuid : UuidParser) (broker : Broker) (db : Table) (replicas : ℕ → Replica)
    {N : ℕ} (hN : 0 < N) {es : List PipelineEvent} (hes : ∀ e ∈ es, ∀ w, e.worker = some w → w < N) :
    (((pipeline uuid broker).run (.initial db replicas) es).Drains uuid broker N ↔
      ∀ id, ((pipeline uuid broker).run (.initial db replicas) es).Due (Message.For id) →
        (((pipeline uuid broker).run (.initial db replicas) es).api.store.db.find id).isSome) ∧
    (DeletesUnqueued uuid broker (.initial db replicas) es →
      ((pipeline uuid broker).run (.initial db replicas) es).Drains uuid broker N) := by
  have hiff := drains_iff uuid broker hN (run_staffed uuid broker db replicas hes)
  refine ⟨hiff, fun hdeletes => hiff.mpr fun id hdue => ?_⟩
  obtain ⟨job, rfl, hpending⟩ := hdue.pending
  exact run_backed hdeletes hpending

/-- The worker has set the row to `running` when the requests end. -/
theorem queue_drains_enqueued :
    ((pipeline .hyphenated .head).run oneRowPipeline (processEvents.take 7)).Drains .hyphenated .head
      1 := by
  refine (queue_drains .hyphenated .head _ _ Nat.one_pos ?_).2 (deletesUnqueued_of_trace rfl)
  simp [processEvents, publishEvents, handleEvents, PipelineEvent.worker]

/-- A backup is enqueued, worker `0` is sent the job, and then the backup is
deleted. -/
def deletedEvents : List PipelineEvent :=
  let start (seq : ℕ) (request : Request) : PipelineEvent :=
    .api (.start 0 seq ⟨"user", ⟨1⟩, [], 0, 0⟩ request ⟨⟨0⟩, 0⟩)
  let step (seq : ℕ) : PipelineEvent := .api (.step ⟨⟨1⟩, seq⟩ {})
  [start 0 (.enqueue ⟨7⟩), step 0, step 0, step 0, .deliver 0, start 1 (.delete ⟨7⟩), step 1]

/-- Whatever the worker and the broker do, the job does not go away. -/
theorem not_queue_drains : ¬ ∃ es, (pipeline .hyphenated .head).Along (DrainStep 1)
      ((pipeline .hyphenated .head).run oneRowPipeline deletedEvents) es ∧
    ((pipeline .hyphenated .head).run oneRowPipeline (deletedEvents ++ es)).Quiescent := by
  rintro ⟨es, hes, hquiet⟩
  have hstaffed : ((pipeline .hyphenated .head).run oneRowPipeline deletedEvents).Staffed 1 :=
    run_staffed _ _ _ _ (by simp [deletedEvents, PipelineEvent.worker])
  have hdue : ((pipeline .hyphenated .head).run oneRowPipeline deletedEvents).Due
      (Message.For ⟨7⟩) :=
    due_of_holds (.inr ⟨0, rfl, .inl ⟨_, List.mem_cons_self, _, rfl, rfl⟩⟩)
  rw [Machine.run_append] at hquiet
  exact hquiet.not_due _ (due_run_none hstaffed rfl hdue hes)

end BackupService
