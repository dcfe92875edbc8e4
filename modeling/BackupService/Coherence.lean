import BackupService.Accounting

/-!
Concurrent requests and the cache.

A handler that has changed a row deletes the keys the row is cached under,
and a handler that has missed fills the key with what it has selected. The
two take several steps each, on two stores, so a fill can come after the
deletion although its `SELECT` came before the change. That is the only way
for an entry to be left behind: in a run without such a late fill, whatever
the order of the steps is otherwise, an entry that is out of date is always
one that some handler in flight has still to delete.
-/

namespace BackupService

open Lib

/-! ### What a get reads after a write has been answered -/

section Reads

variable {uuid : UuidParser} {order : RowOrder} {config : AppConfig} {s : State} {es : List Event}
  {e : Event} {key : Key} {n : ℕ}

/-- A quiet event shows nothing, or it is the last step of a request, or the
request performs an operation. -/
theorem quiet_cases (he : e.Quiet order) (t : State) : ((system uuid).step t e).2 = [] ∨
    (∃ id env th response, e = .step id env ∧ t.inflight id = some th ∧ th.prog = .ret response) ∨
      ∃ id env th o k, e = .step id env ∧ env.FaultFree ∧ env.order = order ∧
        t.inflight id = some th ∧ th.prog = .op o k := by
  cases e with
  | step id env =>
      cases hth : t.inflight id with
      | none =>
          refine .inl ?_
          rw [step_step, State.stepThread_none hth]
      | some th =>
          cases hprog : th.prog with
          | ret response => exact .inr (.inl ⟨id, env, th, response, rfl, hth, hprog⟩)
          | op o k => exact .inr (.inr ⟨id, env, th, o, k, rfl, he.1, he.2, hth, hprog⟩)
  | start | expire | advance => exact .inl rfl
  | drop | rpc | configUpdate => exact he.elim

theorem moment_foldl (L : Ledger) (obs : List Obs) :
    (obs.foldl Ledger.note L).moment = L.moment + obs.length := by
  induction obs generalizing L with
  | nil => rfl
  | cons o obs ih =>
      have hnote : (L.note o).moment = L.moment + 1 := by cases o <;> rfl
      rw [List.foldl_cons, ih, hnote, List.length_cons]
      omega

/-- Moments count what a run has shown. -/
theorem moment_ledger : (ledger uuid s es).moment = ((system uuid).trace s es).length := by
  rw [ledger, moment_foldl]
  exact Nat.zero_add _

theorem moment_mono {es' : List Event} (h : es <+: es') :
    (ledger uuid s es).moment ≤ (ledger uuid s es').moment := by
  obtain ⟨rest, rfl⟩ := h
  rw [moment_ledger, moment_ledger, Machine.trace_append, List.length_append]
  omega

theorem done_foldl (L : Ledger) (obs : List Obs) :
    L.done key ≤ (obs.foldl Ledger.note L).done key := by
  induction obs generalizing L with
  | nil => exact le_rfl
  | cons o obs ih => exact (done_le_note L o key).trans (ih _)

theorem done_mono {es' : List Event} (h : es <+: es') :
    (ledger uuid s es).done key ≤ (ledger uuid s es').done key := by
  obtain ⟨rest, rfl⟩ := h
  rw [ledger, ledger, Machine.trace_append, List.foldl_append]
  exact done_foldl _ _

/-- A debt stays until it is paid, over a whole quiet run. -/
theorem Accounted.owes_step (h : Accounted uuid order config s es) (he : e.Quiet order) {id : ReqId}
    (howes : (viewAfter uuid s es).Owes id key n) :
    (viewAfter uuid s (es ++ [e])).Owes id key n ∨ n < (ledger uuid s (es ++ [e])).done key := by
  rcases quiet_cases he ((system uuid).run s es) with hobs | ⟨id', env, th, response, rfl, hth, hprog⟩ |
    ⟨id', env, th, o, k, rfl, henv, horder, hth, hprog⟩
  · refine .inl ?_
    rw [View.Owes, viewAfter, ledger_concat, phases_concat, hobs]
    exact howes
  · refine .inl ⟨?_, ?_⟩
    · have hne : id ≠ id' := by
        rintro rfl
        have hpaid := ((h.tracked id th hth).final hprog).1 rfl
        have howed : key ∈ (phases uuid s es id).owed := howes.1
        rw [hpaid] at howed
        cases howed
      simp only [viewAfter, phases_responded hth hprog, Function.update_of_ne hne]
      exact howes.1
    · simp only [viewAfter, ledger_responded hth hprog]
      exact howes.2
  · exact howes.performs (h.performs henv horder hth hprog)

/-- A request that is answered has paid: the deletion is on record. -/
theorem done_of_responded {pre mid : List Event} (hmid : ∀ e ∈ mid, e.Quiet order)
    (hacc : ∀ q, q <+: pre ++ mid → Accounted uuid order config s q) {id : ReqId}
    {request : Request} {response : Response} (howes : (viewAfter uuid s pre).Owes id key n)
    (hresponded : .responded id request response ∈
      (system uuid).trace ((system uuid).run s pre) mid) :
    n < (ledger uuid s (pre ++ mid)).done key := by
  obtain ⟨mid₁, e, mid₂, rfl, hobs⟩ := (system uuid).exists_of_mem_trace hresponded
  rw [← Machine.run_append] at hobs
  obtain ⟨env, th, rfl, hth, -, hprog⟩ := step_responded hobs
  have hrun : ∀ mid', mid' <+: mid₁ → (viewAfter uuid s (pre ++ mid')).Owes id key n ∨
      n < (ledger uuid s (pre ++ mid')).done key := by
    intro mid'
    induction mid' using List.reverseRecOn with
    | nil =>
        intro _
        rw [List.append_nil]
        exact .inl howes
    | append_singleton mid' e ih =>
        intro hpart
        have hpart' : mid' <+: mid₁ := (List.prefix_append _ _).trans hpart
        rw [← List.append_assoc]
        rcases ih hpart' with howes | hdone
        · refine (hacc (pre ++ mid') ?_).owes_step (hmid e ?_) howes
          · exact List.prefix_append_right_inj _ |>.mpr (hpart'.trans (List.prefix_append _ _))
          · exact List.mem_append_left _ (hpart.subset (List.mem_append_right _ List.mem_cons_self))
        · exact .inr (hdone.trans_le (done_mono (List.prefix_append _ _)))
  have hpart : pre ++ mid₁ <+: pre ++ (mid₁ ++ .step id env :: mid₂) :=
    (List.prefix_append_right_inj _).mpr (List.prefix_append _ _)
  rcases hrun mid₁ List.prefix_rfl with howed | hdone
  · have hpaid := (((hacc _ hpart).tracked id th hth).final hprog).1 rfl
    have howed : key ∈ (phases uuid s (pre ++ mid₁) id).owed := howed.1
    rw [hpaid] at howed
    cases howed
  · exact hdone.trans_le (done_mono hpart)

/-- What the request has in its hands about the backup, it has read at the
moment `n` or later. -/
structure ReadSince (uuid : UuidParser) (s : State) (es : List Event) (id : ReqId) (bid : Uuid)
    (n : ℕ) : Prop where
  row : ∀ b, (phases uuid s es id).copy = .row b → n ≤ (ledger uuid s es).seen id
  hit : ∀ b, (phases uuid s es id).copy = .hit (.backup bid) (.backup b) →
    b.id = bid ∧ WasRow uuid s es n b

theorem afterSql_hit {g : Phase} {q : Sql} {r : Except SqlError q.Answer} {v : CacheValue}
    (h : (g.afterSql q r).copy = .hit key v) : g.copy = .hit key v := by
  rcases r with err | answer
  · exact h
  · cases q with
    | selectBackup bid tenantId =>
        rcases answer with _ | b
        · exact h
        · cases h
    | updateBackup bid tenantId status sizeBytes =>
        rcases answer with _ | b
        · exact h
        · cases h
    | deleteBackup bid tenantId =>
        simp only [Phase.afterSql] at h
        split at h
        · exact h
        · cases h
    | countBackups tenantId status =>
        obtain ⟨copy, owed⟩ := g
        cases copy with
        | items tenantId status limit offset rows => cases h
        | nothing | row | page | hit => exact h
    | insertBackup | selectBackups => cases h
    | setStatus | setCompleted | setFailed => exact h

/-- A statement that a request executes makes it up to date, unless it only
counts. -/
theorem afterSql_row {g : Phase} {q : Sql} {r : Except SqlError q.Answer} {b : Backup} {L : Ledger}
    {id : ReqId} (h : (g.afterSql q r).copy = .row b) :
    L.look id (.sql q) id = L.moment + 1 ∨ L.look id (.sql q) = L.seen ∧ g.copy = .row b := by
  cases q with
  | countBackups tenantId status =>
      refine .inr ⟨rfl, ?_⟩
      rcases r with err | total
      · exact h
      · obtain ⟨copy, owed⟩ := g
        cases copy with
        | items tenantId status limit offset rows => cases h
        | nothing | row | page | hit => exact h
  | insertBackup | selectBackup | selectBackups | updateBackup | deleteBackup | setStatus
  | setCompleted | setFailed => exact .inl (Function.update_self ..)

theorem WasRow.anti {n' : ℕ} {b : Backup} (h : WasRow uuid s es n' b) (hn : n ≤ n') :
    WasRow uuid s es n b := by
  obtain ⟨q, hq, hmoment, hrow⟩ := h
  exact ⟨q, hq, hn.trans hmoment, hrow⟩

theorem ReadSince.step {id : ReqId} {bid : Uuid} (h : ReadSince uuid s es id bid n)
    (hacc : Accounted uuid order config s es) (hn : n ≤ (ledger uuid s es).done (.backup bid))
    (he : e.Quiet order) : ReadSince uuid s (es ++ [e]) id bid n := by
  have hmoment : n ≤ (ledger uuid s es).moment := hn.trans (hacc.done _)
  -- nothing happens to what the request holds
  have hsame : (phases uuid s (es ++ [e]) id).copy = (phases uuid s es id).copy →
      (ledger uuid s (es ++ [e])).seen id = (ledger uuid s es).seen id →
        ReadSince uuid s (es ++ [e]) id bid n := by
    intro hcopy hseen
    refine ⟨fun b hb => ?_, fun b hb => ?_⟩
    · rw [hseen]
      exact h.row b (hcopy ▸ hb)
    · obtain ⟨hid, hwas⟩ := h.hit b (hcopy ▸ hb)
      exact ⟨hid, hwas.concat⟩
  rcases quiet_cases he ((system uuid).run s es) with hobs | ⟨id', env, th, response, rfl, hth, hprog⟩ |
    ⟨id', env, th, o, k, rfl, henv, horder, hth, hprog⟩
  · refine hsame ?_ ?_
    · rw [phases_concat, hobs]
      rfl
    · rw [ledger_concat, hobs]
      rfl
  · by_cases hid : id = id'
    · subst hid
      have hstart : phases uuid s (es ++ [.step id env]) id = .start := by
        rw [phases_responded hth hprog, Function.update_self]
      refine ⟨fun b hb => ?_, fun b hb => ?_⟩ <;>
      · rw [hstart] at hb
        cases hb
    · refine hsame ?_ ?_
      · rw [phases_responded hth hprog, Function.update_of_ne hid]
      · rw [ledger_responded hth hprog]
  · by_cases hid : id = id'
    · subst hid
      have hphase : phases uuid s (es ++ [.step id env]) id =
          (phases uuid s es id).after o (((system uuid).run s es).exec th env o).1 := by
        rw [phases_performed hth hprog, notePhase_self]
      have hseen : (ledger uuid s (es ++ [.step id env])).seen id =
          (ledger uuid s es).look id o id := by
        rw [ledger_performed hth hprog]
        rfl
      cases o with
      | sql q =>
          refine ⟨fun b hb => ?_, fun b hb => ?_⟩
          · rw [hphase] at hb
            rw [hseen]
            rcases @afterSql_row _ q _ b (ledger uuid s es) id hb with hlook | ⟨hlook, hold⟩
            · omega
            · rw [hlook]
              exact h.row b hold
          · rw [hphase] at hb
            obtain ⟨hid, hwas⟩ := h.hit b (afterSql_hit hb)
            exact ⟨hid, hwas.concat⟩
      | redis c =>
          cases c with
          | get key =>
              rcases hr : (((system uuid).run s es).exec th env (.redis (.get key))).1 with
                err | (_ | v)
              · exact hsame (by rw [hphase, hr]; rfl) hseen
              · exact hsame (by rw [hphase, hr]; rfl) hseen
              · obtain ⟨entry, hentry, rfl⟩ := exec_get_ok hr
                obtain ⟨n', hdone, -, -, hrow⟩ := hacc.entries key entry hentry
                refine ⟨fun b hb => ?_, fun b hb => ?_⟩
                · rw [hphase, hr] at hb
                  cases hb
                · rw [hphase, hr] at hb
                  obtain ⟨rfl, hvalue⟩ := Copy.hit.inj hb
                  obtain ⟨hkey, hwas⟩ := hrow b hvalue
                  exact ⟨(Key.backup.inj hkey).symm, (hwas.anti (hn.trans hdone)).concat⟩
          | setEx key v ttl => exact hsame (by rw [hphase]; rfl) hseen
          | del key => exact hsame (by rw [hphase]; rfl) hseen
      | config | entropy => exact hsame (by rw [hphase]; rfl) hseen
      | publish job => exact hsame (by rw [hphase]; rfl) hseen
    · refine hsame ?_ ?_
      · rw [phases_performed hth hprog, notePhase_of_ne _ _ hid]
      · rw [ledger_performed hth hprog]
        exact look_of_ne hid o

end Reads

/-! ### Coherence -/

/-- The request changes or deletes the row. -/
def Obs.Writes (id : ReqId) (bid : Uuid) : Obs → Prop
  | performed id' (.sql (.updateBackup b _ _ _)) r => id' = id ∧ b = bid ∧
      ∃ row, (show Except SqlError (Option Backup) from r) = .ok (some row)
  | performed id' (.sql (.deleteBackup b _)) r => id' = id ∧ b = bid ∧
      ∃ m, m ≠ 0 ∧ (show Except SqlError ℕ from r) = .ok m
  | _ => False

/-- If no request is in flight, every live entry is what the database would
answer: the row, or the page and the count of the configured window. -/
def CoherentAtRest (uuid : UuidParser) (order : RowOrder) (config : AppConfig) (s : State)
    (es : List Event) : Prop :=
  (∀ id, ((system uuid).run s es).inflight id = none) →
    ∀ key e, ((system uuid).run s es).store.redis key = some e →
      (exactly order config).fresh ((system uuid).run s es).store.db key e.value

/-- A get that starts after a patch or a delete has been answered shows a
version that the row has had since. -/
def ReadsAfterWrites (uuid : UuidParser) (s : State) (es : List Event) : Prop :=
  ∀ before write mid tail wid bid rid x, es = before ++ [write] ++ mid ++ tail →
    (∃ obs ∈ ((system uuid).step ((system uuid).run s before) write).2, obs.Writes wid bid) →
    (∃ request response, .responded wid request response ∈
      (system uuid).trace ((system uuid).run s (before ++ [write])) mid) →
    ((system uuid).run s (before ++ [write] ++ mid)).inflight rid = none →
    .responded rid (.get bid) ⟨200, .backup x⟩ ∈
      (system uuid).trace ((system uuid).run s (before ++ [write] ++ mid)) tail →
    ∃ q b, before ++ [write] <+: q ∧ q <+: es ∧
      ((system uuid).run s q).store.db.find bid = some b ∧ x = .from b

section Main

variable {uuid : UuidParser} {order : RowOrder} {config : AppConfig} {s : State} {es : List Event}

/-- The author of a change owes the deletion of the row's key. -/
theorem Accounted.owes_of_writes {e : Event} {id : ReqId} {bid : Uuid} {obs : Obs}
    (he : e.Quiet order) (hobs : obs ∈ ((system uuid).step ((system uuid).run s es) e).2)
    (hwrites : obs.Writes id bid) :
    (viewAfter uuid s (es ++ [e])).Owes id (.backup bid) (ledger uuid s es).moment ∧
      (ledger uuid s (es ++ [e])).moment = (ledger uuid s es).moment + 1 := by
  rcases quiet_cases he ((system uuid).run s es) with hnone | ⟨id', env, th, response, rfl, hth, hprog⟩ |
    ⟨id', env, th, o, k, rfl, -, -, hth, hprog⟩
  · rw [hnone] at hobs
    cases hobs
  · rw [step_step, State.stepThread_ret hth hprog, List.mem_singleton] at hobs
    subst hobs
    exact hwrites.elim
  · rw [step_step, State.stepThread_op hth hprog, List.mem_singleton] at hobs
    subst hobs
    refine ⟨?_, by rw [ledger_performed hth hprog]; rfl⟩
    have hphase := @phases_performed uuid s es id' th env o k hth hprog
    have hseen : (ledger uuid s (es ++ [.step id' env])).seen id' =
        (ledger uuid s es).look id' o id' := by
      rw [ledger_performed hth hprog]
      rfl
    cases o with
    | sql q =>
        cases q with
        | updateBackup b tenantId status sizeBytes =>
            obtain ⟨rfl, rfl, row, hr⟩ := hwrites
            refine ⟨?_, ?_⟩
            · simp only [viewAfter, hphase, notePhase_self]
              rw [show (((system uuid).run s es).exec th env (.sql (.updateBackup b tenantId status
                sizeBytes))).1 = .ok (some row) from hr]
              exact List.mem_cons_self
            · exact (hseen.trans (Function.update_self ..)).symm ▸ Nat.lt_succ_self _
        | deleteBackup b tenantId =>
            obtain ⟨rfl, rfl, m, hm, hr⟩ := hwrites
            refine ⟨?_, ?_⟩
            · simp only [viewAfter, hphase, notePhase_self]
              rw [show (((system uuid).run s es).exec th env (.sql (.deleteBackup b tenantId))).1 =
                .ok m from hr]
              simp only [Phase.after, Phase.afterSql, if_neg hm]
              exact List.mem_cons_self
            · exact (hseen.trans (Function.update_self ..)).symm ▸ Nat.lt_succ_self _
        | insertBackup | selectBackup | selectBackups | countBackups | setStatus | setCompleted
        | setFailed => exact hwrites.elim
    | redis | config | publish | entropy => exact hwrites.elim

/-- A run that is not shorter in moments extends the change. -/
theorem prefix_of_moment {before q : List Event} {write : Event} (hq : q <+: es)
    (hbefore : before ++ [write] <+: es)
    (hmoment : (ledger uuid s before).moment < (ledger uuid s q).moment) :
    before ++ [write] <+: q := by
  rcases List.prefix_or_prefix_of_prefix hq hbefore with hle | hge
  · rcases List.prefix_concat_iff.mp hle with rfl | hlt
    · exact List.prefix_rfl
    · have := @moment_mono uuid s q before hlt
      omega
  · exact hge

/-- A request that has not read anything yet reads since `n`, if the deletion
that follows the change of moment `n` is over. -/
theorem ReadSince.run {q tail : List Event} {rid : ReqId} {bid : Uuid} {n : ℕ}
    (hacc : ∀ t, t <+: tail → Accounted uuid order config s (q ++ t))
    (htail : ∀ e ∈ tail, e.Quiet order) (hdone : n ≤ (ledger uuid s q).done (.backup bid))
    (hidle : ((system uuid).run s q).inflight rid = none) :
    ReadSince uuid s (q ++ tail) rid bid n := by
  induction tail using List.reverseRecOn with
  | nil =>
      have hstart := (hacc [] List.prefix_rfl).idle rid (by rwa [List.append_nil])
      refine ⟨fun b hb => ?_, fun b hb => ?_⟩ <;>
      · rw [hstart] at hb
        cases hb
  | append_singleton t e ih =>
      have hread := ih (fun t' ht' => hacc t' (ht'.trans (List.prefix_append _ _)))
        fun e' he' => htail e' (List.mem_append_left _ he')
      rw [← List.append_assoc]
      exact hread.step (hacc t (List.prefix_append _ _))
        (hdone.trans (done_mono (List.prefix_append _ _))) (htail e (by simp))

theorem readsAfterWrites (hes : ∀ e ∈ es, e.Quiet order)
    (hacc : ∀ q, q <+: es → Accounted uuid order config s q) : ReadsAfterWrites uuid s es := by
  rintro before write mid tail wid bid rid x rfl ⟨obs, hobs, hwrites⟩ ⟨request, response, hanswered⟩
    hidle hget
  have hsub : ∀ {q}, q <+: before ++ [write] ++ mid → q <+: before ++ [write] ++ mid ++ tail :=
    fun hq => hq.trans (List.prefix_append _ _)
  obtain ⟨howes, hmoment⟩ := Accounted.owes_of_writes (hes write (by simp)) hobs hwrites
  have hdone := done_of_responded (fun e he => hes e (by simp [he])) (fun q hq => hacc q (hsub hq))
    howes hanswered
  obtain ⟨tail₁, e, tail₂, rfl, hresponded⟩ := (system uuid).exists_of_mem_trace hget
  rw [← Machine.run_append] at hresponded
  obtain ⟨env, th, rfl, hth, hrequest, hprog⟩ := step_responded hresponded
  -- what the get has read by the time it answers
  have hpart : ∀ t, t <+: tail₁ → before ++ [write] ++ mid ++ t <+:
      before ++ [write] ++ mid ++ (tail₁ ++ .step rid env :: tail₂) := fun t ht =>
    (List.prefix_append_right_inj _).mpr (ht.trans (List.prefix_append _ _))
  have haccounted := hacc _ (hpart tail₁ List.prefix_rfl)
  have hsince := ReadSince.run (fun t ht => hacc _ (hpart t ht))
    (fun e he => hes e (by simp [he])) (Nat.succ_le_of_lt hdone) hidle
  have hshown := ((haccounted.tracked rid th hth).final hprog).2
  rw [hrequest] at hshown
  have hwas : ∃ b, x = .from b ∧ b.id = bid ∧ WasRow uuid s (before ++ [write] ++ mid ++ tail₁)
      ((ledger uuid s before).moment + 1) b := by
    rcases hshown with ⟨err, herr⟩ | ⟨b, hresponse, -, ⟨hcopy, hid⟩ | hcopy⟩
    · cases err <;> cases herr
    · have hrecorded := haccounted.copies rid
      rw [hcopy] at hrecorded
      simp only [Response.mk.injEq, Body.backup.injEq, true_and] at hresponse
      exact ⟨b, hresponse, hid, hrecorded.2.anti (hsince.row b hcopy)⟩
    · simp only [Response.mk.injEq, Body.backup.injEq, true_and] at hresponse
      exact ⟨b, hresponse, hsince.hit b hcopy⟩
  obtain ⟨b, hx, rfl, q, hq, hle, hrow⟩ := hwas
  have hqes := hq.trans (hpart tail₁ List.prefix_rfl)
  have hbefore : before ++ [write] <+: before ++ [write] ++ mid ++
      (tail₁ ++ .step rid env :: tail₂) := hsub (List.prefix_append _ _)
  exact ⟨q, b, prefix_of_moment hqes hbefore (Nat.lt_of_succ_le hle), hqes, hrow, hx⟩

/-- **Coherence without late fills.** In every quiet run in which no request
fills a key after a later change has been followed by the deletion of that
key, the cache is coherent whenever nothing is in flight, and a get never
shows a version that was replaced or deleted by a request which had been
answered before the get started. -/
theorem coherent_without_late_fills (uuid : UuidParser) (order : RowOrder) (config : AppConfig)
    (db : Table) (amqpChannel : ℕ → Bool) (es : List Event) (hes : ∀ e ∈ es, e.Quiet order)
    (hlate : NoLateFill uuid (.connected db config amqpChannel) es) :
    CoherentAtRest uuid order config (.connected db config amqpChannel) es ∧
      ReadsAfterWrites uuid (.connected db config amqpChannel) es := by
  have hacc : ∀ q, q <+: es → Accounted uuid order config (.connected db config amqpChannel) q :=
    fun q hq => run_accounted (fun e he => hes e (hq.subset he)) (hlate.of_prefix hq)
  exact ⟨fun hrest key e he => (hacc es List.prefix_rfl).coherent hrest he,
    readsAfterWrites hes hacc⟩

end Main

/-! ### A late fill -/

section LateFill

/-- Requests of a user of tenant `1`. -/
def begin (seq : ℕ) (request : Request) : Event :=
  .start seq seq ⟨"user", ⟨1⟩, [], 0, 0⟩ request ⟨⟨0⟩, 1⟩

def steps (seq n : ℕ) : List Event := List.replicate n (.step ⟨⟨1⟩, seq⟩ {})

def startRunning : Request := .update ⟨7⟩ ⟨some .running, none⟩

/-- While a get is under way that has selected the row, a patch is executed;
the get fills the cache with the row as it was, the patch deletes the key,
and another get fills it again. -/
def patchDuringGet : List Event :=
  begin 0 (.get ⟨7⟩) :: steps 0 2 ++ begin 1 startRunning :: steps 1 1 ++ steps 0 3 ++ steps 1 3 ++
    begin 2 (.get ⟨7⟩) :: steps 2 5

/-- A get misses and selects the row; a patch is executed from beginning to
end; then the get fills the cache with what it has selected. -/
def lateFill : List Event :=
  begin 0 (.get ⟨7⟩) :: steps 0 2 ++ begin 1 startRunning :: steps 1 4 ++ steps 0 3

theorem noLateFill_of_take {uuid : UuidParser} {s : State} {es : List Event}
    (h : ∀ i : Fin es.length, ∀ f ∈ ((system uuid).step ((system uuid).run s (es.take i))
      es[i]).2.filterMap Obs.fill,
        (ledger uuid s (es.take i)).done f.2 ≤ (ledger uuid s (es.take i)).seen f.1) :
    NoLateFill uuid s es := by
  rintro pre e obs id key ⟨rest, rfl⟩ hobs hfill
  have hlt : pre.length < (pre ++ [e] ++ rest).length := by simp
  have hat := h ⟨pre.length, hlt⟩
  simp only [List.append_assoc, List.take_left, Fin.getElem_fin, List.getElem_append_right le_rfl,
    Nat.sub_self, List.singleton_append, List.getElem_cons_zero] at hat
  exact hat (id, key) (List.mem_filterMap.mpr ⟨obs, hobs, hfill⟩)

/-- The initial state of two replicas over that table. -/
def oneRowState : State := .connected oneRow .default fun _ => true

theorem quiet_steps {seq n : ℕ} : ∀ e ∈ steps seq n, e.Quiet .stable := by
  intro e he
  rw [List.eq_of_mem_replicate he]
  exact ⟨⟨rfl, rfl, rfl⟩, rfl⟩

theorem coherent_without_late_fills_patchDuringGet :
    CoherentAtRest .hyphenated .stable .default oneRowState patchDuringGet ∧
      ReadsAfterWrites .hyphenated oneRowState patchDuringGet := by
  refine coherent_without_late_fills .hyphenated .stable .default oneRow (fun _ => true) _ ?_
    (noLateFill_of_take ?_)
  · intro e he
    simp only [patchDuringGet, List.cons_append, List.mem_cons, List.mem_append] at he
    rcases he with rfl | ((((he | rfl | he) | he) | he) | rfl | he)
    · trivial
    · exact quiet_steps e he
    · trivial
    · exact quiet_steps e he
    · exact quiet_steps e he
    · exact quiet_steps e he
    · trivial
    · exact quiet_steps e he
  · decide

/-- The late fill, and a get that starts when everything is at rest. -/
def lateFillThenGet : List Event := lateFill ++ begin 2 (.get ⟨7⟩) :: steps 2 2

theorem rest_lateFill (id : ReqId) :
    ((system .hyphenated).run oneRowState lateFill).inflight id = none := by
  by_cases hid : id = ⟨⟨1⟩, 0⟩ ∨ id = ⟨⟨1⟩, 1⟩
  · rcases hid with rfl | rfl <;> rfl
  · refine run_inflight_none rfl fun replica seq claims request oracle hmem heq => hid ?_
    subst heq
    simp only [lateFill, begin, steps, List.cons_append, List.mem_cons, List.mem_append,
      List.mem_replicate, Event.start.injEq, reduceCtorEq, and_false, or_false, false_or] at hmem
    rcases hmem with ⟨-, rfl, rfl, -, -⟩ | ⟨-, rfl, rfl, -, -⟩
    · exact .inl rfl
    · exact .inr rfl

/-- After a late fill nothing is in flight, the row is running, and a get
shows that it is pending. -/
theorem not_coherent :
    (∀ e ∈ lateFillThenGet, e.Quiet .stable) ∧
      ¬ CoherentAtRest .hyphenated .stable .default oneRowState lateFill ∧
      ¬ ReadsAfterWrites .hyphenated oneRowState lateFillThenGet := by
  refine ⟨?_, fun h => ?_, fun h => ?_⟩
  · intro e he
    simp only [lateFillThenGet, lateFill, List.cons_append, List.mem_cons, List.mem_append] at he
    rcases he with rfl | ((he | rfl | he) | he) | rfl | he
    · trivial
    · exact quiet_steps e he
    · trivial
    · exact quiet_steps e he
    · exact quiet_steps e he
    · trivial
    · exact quiet_steps e he
  · obtain ⟨b, hb, hfind⟩ := h rest_lateFill (.backup ⟨7⟩) _ rfl
    obtain rfl := CacheValue.backup.inj hb
    exact absurd hfind (by decide)
  · -- the patch is executed by the fifth event, and answered before the last get starts
    have hrow : ∀ i : Fin (lateFillThenGet.length + 1), 5 ≤ i.val →
        ((system .hyphenated).run oneRowState (lateFillThenGet.take i)).store.db.find ⟨7⟩ =
          some ⟨⟨7⟩, ⟨1⟩, "/data", 0, "running", false, 0, 1⟩ := by
      decide
    obtain ⟨q, b, hge, hle, hfind, hx⟩ := h (lateFillThenGet.take 4) (.step ⟨⟨1⟩, 1⟩ {})
      ((lateFillThenGet.drop 5).take 6) (lateFillThenGet.drop 11) ⟨⟨1⟩, 1⟩ ⟨7⟩ ⟨⟨1⟩, 2⟩
      (.from ⟨⟨7⟩, ⟨1⟩, "/data", 0, "pending", false, 0, 0⟩) rfl
      ⟨_, List.mem_singleton.mpr rfl, rfl, rfl, _, rfl⟩
      ⟨startRunning, ⟨200, .backup (.from ⟨⟨7⟩, ⟨1⟩, "/data", 0, "running", false, 0, 1⟩)⟩,
        List.mem_of_getElem? (i := 2) rfl⟩ rfl (List.mem_of_getElem? (i := 1) rfl)
    have hq : lateFillThenGet.take q.length = q := (List.prefix_iff_eq_take.mp hle).symm
    have hlen := hrow ⟨q.length, Nat.lt_succ_of_le hle.length_le⟩ hge.length_le
    rw [hq, hfind] at hlen
    obtain rfl := Option.some.inj hlen
    exact absurd hx (by decide)

end LateFill

end BackupService
