import BackupService.Provenance

/-!
How old the data in a response can be.

Nothing is assumed here about the order of events: fills race with
invalidations, deletions get lost with their Redis command, handlers are
cut off between a write and the deletions that belong to it, and callbacks
never delete anything. What is left is the lifetime of the entries. Every
entry carries the instant at which Redis drops it, and that dates the
statement its value comes from: it was set at most the lifetime earlier, by
a handler that had then been running for a bounded time.
-/

namespace BackupService

open Lib

/-- The state of the system after some events. -/
abbrev stateAfter (uuid : UuidParser) (s : State) (es : List Event) : State :=
  (system uuid).run s es

/-- No handler has an effect later than `d` after its start. -/
def Timely (uuid : UuidParser) (s : State) (d : ℕ) (es : List Event) : Prop :=
  ∀ pre id env th, pre ++ [.step id env] <+: es → (stateAfter uuid s pre).inflight id = some th →
    (stateAfter uuid s pre).clock ≤ th.startedAt + d

/-- No configuration of the run has ever held a longer lifetime than `ttl`
seconds. -/
def TtlAtMost (uuid : UuidParser) (s : State) (ttl : ℕ) (es : List Event) : Prop :=
  ∀ pre replica, pre <+: es →
    ((stateAfter uuid s pre).replicas replica).config.cacheTtlSecs.toNat ≤ ttl

/-- At some moment of the run, not before `since`, the table was as `p`
says. -/
def Sometime (uuid : UuidParser) (s : State) (es : List Event) (since : ℕ) (p : Table → Prop) :
    Prop :=
  ∃ q, q <+: es ∧ since ≤ (stateAfter uuid s q).clock ∧ p (stateAfter uuid s q).store.db

/-- A request of the tenant has been received. -/
def Received (es : List Event) (tenantId : Uuid) (request : Request) : Prop :=
  ∃ replica seq claims oracle, claims.tenantId = tenantId ∧
    .start replica seq claims request oracle ∈ es

/-- The rows are what a statement of some list request of the tenant
selects. -/
def Table.Selects (es : List Event) (tenantId : Uuid) (status : Option String) (items : List Backup)
    (t : Table) : Prop :=
  ∃ order params, Received es tenantId (.list params) ∧ params.status = status ∧
    items = t.page order tenantId status (clamp params.limit 1 100) (max params.offset 0)

/-- The value is what the table has for the key. -/
def Table.Backs (es : List Event) : Key → CacheValue → Table → Prop
  | .backup id, v, t => ∃ b, v = .backup b ∧ t.find id = some b
  | .tenantBackups tenantId, v, t => ∃ items total, v = .page items total ∧
      t.Selects es tenantId none items

section Past

variable {uuid : UuidParser} {s : State} {es es' : List Event} {since since' : ℕ}
  {p p' : Table → Prop}

theorem Sometime.mono (h : Sometime uuid s es since p) (hes : es <+: es') (hsince : since' ≤ since)
    (hp : ∀ t, p t → p' t) : Sometime uuid s es' since' p' := by
  obtain ⟨q, hq, hclock, ht⟩ := h
  exact ⟨q, hq.trans hes, hsince.trans hclock, hp _ ht⟩

theorem Sometime.later (h : Sometime uuid s es since p) (hes : es <+: es') :
    Sometime uuid s es' since p := h.mono hes le_rfl fun _ ht => ht

theorem Sometime.now (hsince : since ≤ (stateAfter uuid s es).clock)
    (hp : p (stateAfter uuid s es).store.db) : Sometime uuid s es since p :=
  ⟨es, List.prefix_rfl, hsince, hp⟩

theorem Received.mono {tenantId : Uuid} {request : Request} (h : Received es tenantId request)
    (hes : es <+: es') : Received es' tenantId request := by
  obtain ⟨replica, seq, claims, oracle, htenant, hmem⟩ := h
  exact ⟨replica, seq, claims, oracle, htenant, hes.subset hmem⟩

theorem Table.Selects.mono {tenantId : Uuid} {status : Option String} {items : List Backup} {t : Table}
    (h : t.Selects es tenantId status items) (hes : es <+: es') :
    t.Selects es' tenantId status items := by
  obtain ⟨order, params, hreceived, hstatus, hitems⟩ := h
  exact ⟨order, params, hreceived.mono hes, hstatus, hitems⟩

theorem Table.Backs.mono {key : Key} {v : CacheValue} {t : Table} (h : t.Backs es key v)
    (hes : es <+: es') : t.Backs es' key v := by
  cases key with
  | backup id => exact h
  | tenantBackups tenantId =>
      obtain ⟨items, total, hv, hitems⟩ := h
      exact ⟨items, total, hv, hitems.mono hes⟩

end Past

/-! ### Dated data -/

section Dated

variable (uuid : UuidParser) (s : State) (ttl d : ℕ) (es : List Event)

/-- Where a copy comes from that is in the hands of a handler, which has
been running since the instant `since`. -/
def Copy.From (since : ℕ) : Copy → Prop
  | .nothing => True
  | .row b => Sometime uuid s es since fun t => b ∈ t.rows
  | .items tenantId status limit offset rows => Sometime uuid s es since fun t =>
      ∃ order, rows = t.page order tenantId status limit offset
  | .page tenantId status limit offset rows _ => Sometime uuid s es since fun t =>
      ∃ order, rows = t.page order tenantId status limit offset
  | .hit key v => Sometime uuid s es (since - (secs ttl + d)) (Table.Backs es key v)

/-- A thread whose copy is dated. -/
structure Thread.Dated (id : ReqId) (th : Thread) : Prop where
  tenant : th.claims.tenantId = id.tenant
  received : Received es id.tenant th.request
  started : th.startedAt ≤ (stateAfter uuid s es).clock
  copy : ∃ g, th.Tracked (fun cfg => cfg.cacheTtlSecs.toNat ≤ ttl) false g ∧
    g.copy.From uuid s ttl d es th.startedAt

/-- Everything that is in Redis, or in the hands of a handler, is dated. -/
structure Dated : Prop where
  live : ∀ key e, (stateAfter uuid s es).store.redis key = some e →
    (stateAfter uuid s es).clock < e.expiresAt
  entries : ∀ key e, (stateAfter uuid s es).store.redis key = some e →
    Sometime uuid s es (e.expiresAt - (secs ttl + d)) (Table.Backs es key e.value)
  threads : ∀ id th, (stateAfter uuid s es).inflight id = some th → th.Dated uuid s ttl d es id

end Dated

section Steps

variable {uuid : UuidParser} {s : State} {ttl d : ℕ} {es es' : List Event} {e : Event}

theorem stateAfter_concat : stateAfter uuid s (es ++ [e]) =
    ((system uuid).step (stateAfter uuid s es) e).1 := (system uuid).run_concat s es e

theorem Copy.From.mono {since : ℕ} {c : Copy} (h : c.From uuid s ttl d es since) (hes : es <+: es') :
    c.From uuid s ttl d es' since := by
  cases c with
  | nothing => trivial
  | row b =>
      simp only [Copy.From] at h ⊢
      exact h.later hes
  | items tenantId status limit offset rows =>
      simp only [Copy.From] at h ⊢
      exact h.later hes
  | page tenantId status limit offset rows total =>
      simp only [Copy.From] at h ⊢
      exact h.later hes
  | hit key v => exact Sometime.mono h hes le_rfl fun t ht => ht.mono hes

theorem Thread.Dated.mono {id : ReqId} {th : Thread} (h : th.Dated uuid s ttl d es id)
    (hes : es <+: es') (hclock : (stateAfter uuid s es).clock ≤ (stateAfter uuid s es').clock) :
    th.Dated uuid s ttl d es' id := by
  obtain ⟨g, htracked, hcopy⟩ := h.copy
  exact ⟨h.tenant, h.received.mono hes, h.started.trans hclock, g, htracked, hcopy.mono hes⟩

/-- What has to be shown for one more event: that the new entries and the
new threads are dated. -/
theorem Dated.concat (h : Dated uuid s ttl d es)
    (hclock : (stateAfter uuid s es).clock ≤ (stateAfter uuid s (es ++ [e])).clock)
    (hlive : ∀ key entry, (stateAfter uuid s (es ++ [e])).store.redis key = some entry →
      (stateAfter uuid s (es ++ [e])).clock < entry.expiresAt)
    (hentries : ∀ key entry, (stateAfter uuid s (es ++ [e])).store.redis key = some entry →
      (stateAfter uuid s es).store.redis key = some entry ∨
        Sometime uuid s (es ++ [e]) (entry.expiresAt - (secs ttl + d))
          (Table.Backs (es ++ [e]) key entry.value))
    (hthreads : ∀ id th, (stateAfter uuid s (es ++ [e])).inflight id = some th →
      (stateAfter uuid s es).inflight id = some th ∨ th.Dated uuid s ttl d (es ++ [e]) id) :
    Dated uuid s ttl d (es ++ [e]) where
  live := hlive
  entries key entry hentry := by
    rcases hentries key entry hentry with hold | hnew
    · exact (h.entries key entry hold).mono (List.prefix_append _ _) le_rfl fun t ht =>
        ht.mono (List.prefix_append _ _)
    · exact hnew
  threads id th hth := by
    rcases hthreads id th hth with hold | hnew
    · exact (h.threads id th hold).mono (List.prefix_append _ _) hclock
    · exact hnew

/-- What a handler has in its hands after an operation is dated. -/
theorem from_after (h : Dated uuid s ttl d es) {th : Thread} {env : Env} {o : Op} {g : Phase}
    (hstarted : th.startedAt ≤ (stateAfter uuid s es).clock)
    (hcopy : g.copy.From uuid s ttl d es th.startedAt)
    (hstore : (stateAfter uuid s (es ++ [e])).store = ((stateAfter uuid s es).exec th env o).2)
    (hclock : (stateAfter uuid s (es ++ [e])).clock = (stateAfter uuid s es).clock) :
    (g.after o ((stateAfter uuid s es).exec th env o).1).copy.From uuid s ttl d (es ++ [e])
      th.startedAt := by
  have hes : es <+: es ++ [e] := List.prefix_append _ _
  have hold := hcopy.mono hes
  cases o with
  | sql q =>
      rcases hr : ((stateAfter uuid s es).exec th env (.sql q)).1 with err | answer
      · exact hold
      · obtain ⟨hanswer, hdb⟩ := exec_sql_ok hr
        have hnow : ∀ p : Table → Prop, p (stateAfter uuid s es).store.db →
            Sometime uuid s (es ++ [e]) th.startedAt p := fun p hp =>
          (Sometime.now hstarted hp).later hes
        have hthen : ∀ p : Table → Prop,
            p (q.exec env.order th.oracle (stateAfter uuid s es).store.db).2 →
              Sometime uuid s (es ++ [e]) th.startedAt p := fun p hp =>
          Sometime.now (hclock ▸ hstarted) (by rw [hstore, State.exec, hdb]; exact hp)
        cases q with
        | insertBackup tenantId sourcePath encryptionEnabled =>
            exact hthen (fun t => answer ∈ t.rows) (exec_insertBackup_ok _ _ hanswer)
        | selectBackup id tenantId =>
            rcases answer with _ | b
            · exact hold
            · have hfind := (exec_selectBackup_ok _ _ _ _ hanswer).1
              exact hnow (fun t => b ∈ t.rows) (Table.find_eq_some.mp hfind).1
        | selectBackups tenantId status limit offset =>
            exact hnow (fun t => ∃ order, answer = t.page order tenantId status limit offset)
              ⟨env.order, exec_selectBackups_ok _ _ _ _ _ hanswer⟩
        | countBackups tenantId status =>
            obtain ⟨copy, owed⟩ := g
            cases copy <;> exact hold
        | updateBackup id tenantId status sizeBytes =>
            rcases answer with _ | b
            · exact hold
            · exact hthen (fun t => b ∈ t.rows) (exec_updateBackup_ok _ _ hanswer)
        | deleteBackup id tenantId =>
            simp only [Phase.after, Phase.afterSql]
            split
            · exact hold
            · trivial
        | setStatus id status => exact hold
        | setCompleted id sizeBytes => exact hold
        | setFailed id => exact hold
  | redis c =>
      cases c with
      | get key =>
          rcases hr : ((stateAfter uuid s es).exec th env (.redis (.get key))).1 with err | _ | v
          · exact hold
          · exact hold
          · obtain ⟨entry, hentry, rfl⟩ := exec_get_ok hr
            -- the entry is alive now, and this handler has been started before
            have hlive := h.live key entry hentry
            exact (h.entries key entry hentry).mono hes (by omega) fun t ht => ht.mono hes
      | setEx key v lifetime => exact hold
      | del key => exact hold
  | config | entropy => exact hold
  | publish job => exact hold

/-- What a handler puts into Redis is dated. -/
theorem sometime_of_setEx {id : ReqId} {th : Thread} {key : Key} {v : CacheValue} {lifetime : UInt64}
    {k : (Op.redis (.setEx key v lifetime)).Answer → Action Response}
    (h : th.Dated uuid s ttl d es id) (hprog : th.prog = .op (.redis (.setEx key v lifetime)) k)
    (htimely : (stateAfter uuid s es).clock ≤ th.startedAt + d) :
    Sometime uuid s es ((stateAfter uuid s es).clock + secs lifetime.toNat - (secs ttl + d))
      (Table.Backs es key v) := by
  obtain ⟨g, htracked, hcopy⟩ := h.copy
  obtain ⟨-, cfg, cfg', -, hcfg', hlifetime, hcached⟩ := htracked.allow hprog
  have hsecs : secs lifetime.toNat ≤ secs ttl := by
    rw [hlifetime]
    exact Nat.mul_le_mul_right _ hcfg'
  have hsince : (stateAfter uuid s es).clock + secs lifetime.toNat - (secs ttl + d) ≤
      th.startedAt := by
    omega
  cases key with
  | backup bid =>
      obtain ⟨b, hb, hid, rfl⟩ := hcached
      rw [hb] at hcopy
      simp only [Copy.From] at hcopy
      exact hcopy.mono List.prefix_rfl hsince fun t ht =>
        ⟨b, rfl, Table.find_eq_some.mpr ⟨ht, hid⟩⟩
  | tenantBackups tenantId =>
      obtain ⟨params, items, total, hrequest, rfl, huse, hanswers, rfl⟩ := hcached
      have hstatus := (useListCache_iff.mp huse).1
      have hreceived := h.received
      rw [hrequest, ← h.tenant] at hreceived
      rw [hanswers, hstatus] at hcopy
      simp only [Copy.From] at hcopy
      exact hcopy.mono List.prefix_rfl hsince fun t ⟨order, ht⟩ =>
        ⟨items, total, rfl, order, params, hreceived, hstatus, ht⟩

/-- Every event leaves everything dated. -/
theorem Dated.step (h : Dated uuid s ttl d es) (htimely : Timely uuid s d (es ++ [e]))
    (httl : TtlAtMost uuid s ttl (es ++ [e])) : Dated uuid s ttl d (es ++ [e]) := by
  have hes : es <+: es ++ [e] := List.prefix_append _ _
  have hclock : (stateAfter uuid s es).clock ≤ (stateAfter uuid s (es ++ [e])).clock := by
    rw [stateAfter_concat]
    exact clock_le_step
  refine h.concat hclock ?_ ?_ ?_
  · intro key entry hentry
    rw [stateAfter_concat] at hentry ⊢
    -- Entries live until they expire, and a new one has a lifetime that is not zero.
    rcases step_redis_some hentry with ⟨hold, hlive⟩ | ⟨id, env, th, lifetime, k, rfl, hth, hprog,
      hpos, hexpires⟩
    · exact hlive (h.live key entry hold)
    · have hsecs : 0 < secs lifetime.toNat := Nat.mul_pos hpos (by decide)
      rw [step_step, State.stepThread_op hth hprog, hexpires]
      exact Nat.lt_add_of_pos_right hsecs
  · intro key entry hentry
    rw [stateAfter_concat] at hentry
    rcases step_redis_some hentry with ⟨hold, -⟩ | ⟨id, env, th, lifetime, k, rfl, hth, hprog, -,
      hexpires⟩
    · exact .inl hold
    · -- A new entry has what its request read, and the request has not taken too long.
      have hset := sometime_of_setEx (h.threads id th hth) hprog
        (htimely es id env th List.prefix_rfl hth)
      rw [hexpires]
      exact .inr (hset.mono hes le_rfl fun t ht => ht.mono hes)
  · intro id th hth
    rw [stateAfter_concat] at hth
    rcases step_inflight hth with hold | ⟨replica, seq, claims, request, oracle, rfl, rfl, rfl⟩ |
      ⟨env, th₀, o, k, rfl, hth₀, hprog, rfl⟩
    · exact .inl hold
    · have hnew : ((stateAfter uuid s es).newThread replica claims request oracle).Tracked
          (fun cfg => cfg.cacheTtlSecs.toNat ≤ ttl) false .start :=
        newThread_tracked (fun h : false = true => nomatch h) claims request oracle
      refine .inr ⟨rfl, ?_, hclock, .start, hnew, trivial⟩
      exact ⟨replica, seq, claims, oracle, rfl, List.mem_append_right _ List.mem_cons_self⟩
    · have hdated := h.threads id th₀ hth₀
      obtain ⟨g, htracked, hcopy⟩ := hdated.copy
      have hmono := hdated.mono hes hclock
      have hafter : ((system uuid).step (stateAfter uuid s es) (.step id env)).1 =
          (((stateAfter uuid s es).setStore ((stateAfter uuid s es).exec th₀ env o).2).setThread id
            (some { th₀ with prog := k ((stateAfter uuid s es).exec th₀ env o).1 })) := by
        rw [step_step, State.stepThread_op hth₀ hprog]
      have hconfig := httl es th₀.replica hes
      refine .inr ⟨hmono.tenant, hmono.received, hmono.started, _,
        htracked.next hprog (exec_rely_tracked hconfig ..), ?_⟩
      refine from_after h hdated.started hcopy ?_ ?_
      · rw [stateAfter_concat, hafter]
        rfl
      · rw [stateAfter_concat, hafter]
        rfl

theorem Timely.of_prefix {es es' : List Event} (h : Timely uuid s d es') (hes : es <+: es') :
    Timely uuid s d es := fun pre id env th hpre => h pre id env th (hpre.trans hes)

theorem TtlAtMost.of_prefix {es es' : List Event} (h : TtlAtMost uuid s ttl es') (hes : es <+: es') :
    TtlAtMost uuid s ttl es := fun pre replica hpre => h pre replica (hpre.trans hes)

end Steps

/-! ### Runs -/

/-- At some instant of the run from `since` on until now, the table was as
`p` says. -/
def Within (uuid : UuidParser) (s : State) (es : List Event) (since : ℕ) (p : Table → Prop) : Prop :=
  ∃ q, q <+: es ∧ since ≤ (stateAfter uuid s q).clock ∧
    (stateAfter uuid s q).clock ≤ (stateAfter uuid s es).clock ∧ p (stateAfter uuid s q).store.db

theorem clock_mono {uuid : UuidParser} {s : State} {es es' : List Event} (h : es <+: es') :
    (stateAfter uuid s es).clock ≤ (stateAfter uuid s es').clock := by
  obtain ⟨rest, rfl⟩ := h
  induction rest using List.reverseRecOn with
  | nil => rw [List.append_nil]
  | append_singleton rest e ih =>
      rw [← List.append_assoc, stateAfter_concat]
      exact ih.trans clock_le_step

theorem Sometime.within {uuid : UuidParser} {s : State} {es : List Event} {since since' : ℕ}
    {p p' : Table → Prop} (h : Sometime uuid s es since p) (hsince : since' ≤ since)
    (hp : ∀ t, p t → p' t) : Within uuid s es since' p' := by
  obtain ⟨q, hq, hclock, ht⟩ := h
  exact ⟨q, hq, hsince.trans hclock, clock_mono hq, hp _ ht⟩

/-- The response to a request of the tenant is that of an error, or what it
shows was in the table at some instant from `since` on: a get shows the row
of that identifier, which is the tenant's, and a list shows what a statement
has selected for a list request of the tenant with the same filter. Any
other response shows a row. -/
def Recent (uuid : UuidParser) (s : State) (es : List Event) (since : ℕ) (tenantId : Uuid) :
    Request → Response → Prop
  | .get id, r => (∃ e : AppError, r = e.intoResponse) ∨ ∃ b, r = ⟨200, .backup (.from b)⟩ ∧
      b.tenantId = tenantId ∧ Within uuid s es since fun t => t.find id = some b
  | .list params, r => (∃ e : AppError, r = e.intoResponse) ∨ ∃ items total,
      r = listResponse params items total ∧
        Within uuid s es since (Table.Selects es tenantId params.status items)
  | _, r => (∃ e : AppError, r = e.intoResponse) ∨ ∀ x, r.body = .backup x →
      ∃ b, { x with entropy := none } = .from b ∧ Within uuid s es since fun t => b ∈ t.rows

/-- A thread with nothing left to do shows recent data. -/
theorem Thread.Dated.recent {uuid : UuidParser} {s : State} {ttl d : ℕ} {es : List Event}
    {id : ReqId} {th : Thread} (h : th.Dated uuid s ttl d es id) {response : Response}
    (hprog : th.prog = .ret response) (htimely : (stateAfter uuid s es).clock ≤ th.startedAt + d) :
    Recent uuid s es ((stateAfter uuid s es).clock - (secs ttl + 2 * d)) id.tenant th.request
      response := by
  obtain ⟨g, htracked, hcopy⟩ := h.copy
  have hshown := (htracked.final hprog).2
  have hreceived := h.received
  rw [← h.tenant] at hreceived ⊢
  -- a copy from Redis is older than the handler by the lifetime, and `d` once more
  have hread : (stateAfter uuid s es).clock - (secs ttl + 2 * d) ≤ th.startedAt := by omega
  have hhit : (stateAfter uuid s es).clock - (secs ttl + 2 * d) ≤ th.startedAt - (secs ttl + d) := by
    omega
  have hrow : ∀ b, g.copy = .row b → Within uuid s es
      ((stateAfter uuid s es).clock - (secs ttl + 2 * d)) fun t => b ∈ t.rows := by
    intro b hb
    rw [hb] at hcopy
    simp only [Copy.From] at hcopy
    exact hcopy.within hread fun t ht => ht
  have hother : ((∃ e : AppError, response = e.intoResponse) ∨ ∀ x, response.body = .backup x →
      ∃ b, g.copy = .row b ∧ { x with entropy := none } = .from b) →
        (∃ e : AppError, response = e.intoResponse) ∨ ∀ x, response.body = .backup x →
          ∃ b, { x with entropy := none } = .from b ∧ Within uuid s es
            ((stateAfter uuid s es).clock - (secs ttl + 2 * d)) fun t => b ∈ t.rows :=
    Or.imp_right fun hshown x hx => by
      obtain ⟨b, hb, hfrom⟩ := hshown x hx
      exact ⟨b, hfrom, hrow b hb⟩
  cases hrequest : th.request with
  | get bid =>
      rw [hrequest] at hshown
      rcases hshown with herror | ⟨b, hresponse, htenant, ⟨hb, hid⟩ | hb⟩
      · exact .inl herror
      · obtain ⟨q, hq, hsince, hnow, hmem⟩ := hrow b hb
        exact .inr ⟨b, hresponse, htenant, q, hq, hsince, hnow, Table.find_eq_some.mpr ⟨hmem, hid⟩⟩
      · rw [hb] at hcopy
        simp only [Copy.From] at hcopy
        refine .inr ⟨b, hresponse, htenant, hcopy.within hhit fun t ht => ?_⟩
        obtain ⟨b', hb', hfind⟩ := ht
        obtain rfl := CacheValue.backup.inj hb'
        exact hfind
  | list params =>
      rw [hrequest] at hshown hreceived
      rcases hshown with herror | ⟨items, total, hresponse, hpage | ⟨hstatus, hpage⟩⟩
      · exact .inl herror
      · rw [hpage] at hcopy
        simp only [Copy.From] at hcopy
        exact .inr ⟨items, total, hresponse, hcopy.within hread fun t ⟨order, ht⟩ =>
          ⟨order, params, hreceived, rfl, ht⟩⟩
      · rw [hpage] at hcopy
        simp only [Copy.From] at hcopy
        refine .inr ⟨items, total, hresponse, hcopy.within hhit fun t ht => ?_⟩
        obtain ⟨items', total', hv, hselects⟩ := ht
        obtain ⟨rfl, rfl⟩ := CacheValue.page.inj hv
        rw [hstatus]
        exact hselects
  | create | update | delete | analyze | enqueue =>
      rw [hrequest] at hshown
      exact hother hshown

section Runs

variable (uuid : UuidParser) (db : Table) (replicas : ℕ → Replica) (ttl d : ℕ)

theorem run_dated (es : List Event) (htimely : Timely uuid (.initial db replicas) d es)
    (httl : TtlAtMost uuid (.initial db replicas) ttl es) :
    Dated uuid (.initial db replicas) ttl d es := by
  induction es using List.reverseRecOn with
  | nil => exact ⟨fun _ _ h => (nomatch h), fun _ _ h => (nomatch h), fun _ _ h => nomatch h⟩
  | append_singleton es e ih =>
      have hes : es <+: es ++ [e] := List.prefix_append _ _
      exact (ih (htimely.of_prefix hes) (httl.of_prefix hes)).step htimely httl

/-- **Bounded staleness.** Whatever happens in a run, in which order, and
what gets lost: when lifetimes are at most `ttl` seconds and handlers have
effects for at most `d` after their start, then what a response shows was in
the database at some instant in the last `ttl + 2 * d`. -/
theorem bounded_staleness (es : List Event) (htimely : Timely uuid (.initial db replicas) d es)
    (httl : TtlAtMost uuid (.initial db replicas) ttl es) (pre : List Event) (e : Event)
    (hpre : pre ++ [e] <+: es) (id : ReqId) (request : Request) (response : Response)
    (hresponded : .responded id request response ∈
      ((system uuid).step (stateAfter uuid (.initial db replicas) pre) e).2) :
    Recent uuid (.initial db replicas) pre
      ((stateAfter uuid (.initial db replicas) pre).clock - (secs ttl + 2 * d)) id.tenant request
        response := by
  obtain ⟨env, th, rfl, hth, rfl, hprog⟩ := step_responded hresponded
  have hpre' : pre <+: es := (List.prefix_append _ _).trans hpre
  have hdated := run_dated uuid db replicas ttl d pre (htimely.of_prefix hpre')
    (httl.of_prefix hpre')
  exact (hdated.threads id th hth).recent hprog (htimely pre id env th hpre hth)

end Runs

/-! ### A stale response -/

theorem timely_of_advance {uuid : UuidParser} {s : State} {d : ℕ} {es : List Event}
    (hclock : s.clock ≤ d) (hes : ∀ e ∈ es, ∀ clock, e = .advance clock → clock ≤ d) :
    Timely uuid s d es := by
  intro pre id env th hpre hth
  have hstep : ∀ t e, t.clock ≤ d → (∀ clock, e = .advance clock → clock ≤ d) →
      ((system uuid).step t e).1.clock ≤ d := by
    intro t e ht he
    rcases @step_clock uuid t e with h | ⟨clock, hadvance, h⟩
    · omega
    · have hle := he clock hadvance
      omega
  have hle : (stateAfter uuid s pre).clock ≤ d :=
    (system uuid).run_preserves hstep hclock fun e he =>
      hes e (hpre.subset (List.mem_append_left _ he))
  omega

theorem ttlAtMost_of_replicas {uuid : UuidParser} {s : State} {ttl : ℕ} {es : List Event}
    (hreplicas : ∀ replica, (s.replicas replica).config.cacheTtlSecs.toNat ≤ ttl)
    (hes : ∀ e ∈ es, ∀ replica update, e ≠ .configUpdate replica update) :
    TtlAtMost uuid s ttl es := by
  intro pre replica hpre
  have hstep : ∀ t e, t.replicas = s.replicas → (∀ replica update, e ≠ .configUpdate replica update) →
      ((system uuid).step t e).1.replicas = s.replicas := fun t e ht he =>
    (step_replicas he).trans ht
  have hsame : (stateAfter uuid s pre).replicas = s.replicas :=
    (system uuid).run_preserves hstep rfl fun e he => hes e (hpre.subset he)
  rw [hsame]
  exact hreplicas replica

/-- Backup `7` is read, and so cached, it is completed by a worker, and then
it is read again. -/
def staleEvents : List Event :=
  let get (seq : ℕ) : Event := .start 0 seq ⟨"user", ⟨1⟩, [], 0, 0⟩ (.get ⟨7⟩) ⟨⟨0⟩, 0⟩
  let step (seq : ℕ) : Event := .step ⟨⟨1⟩, seq⟩ {}
  [get 0, step 0, step 0, step 0, step 0, step 0, .advance 4,
    .rpc (.reportResult ⟨Uuid.toString ⟨7⟩, "completed", 1048576, ⟨[]⟩, false, ""⟩) ⟨⟨0⟩, 1⟩ {},
    get 1, .advance 5, step 1]

theorem bounded_staleness_staleEvents :
    Recent .hyphenated (.initial oneRow fun _ => ⟨⟨.connected, true⟩, .default⟩) staleEvents
      (5 - (secs 300 + 2 * 5)) ⟨1⟩ (.get ⟨7⟩)
      ⟨200, .backup (.from ⟨⟨7⟩, ⟨1⟩, "/data", 0, "pending", false, 0, 0⟩)⟩ := by
  have hes : ∀ e ∈ staleEvents ++ [.step ⟨⟨1⟩, 1⟩ {}], (∀ clock, e = .advance clock → clock ≤ 5) ∧
      ∀ replica update, e ≠ .configUpdate replica update := by
    intro e he
    simp only [staleEvents, List.cons_append, List.nil_append, List.mem_cons, List.not_mem_nil,
      or_false] at he
    rcases he with rfl | rfl | rfl | rfl | rfl | rfl | rfl | rfl | rfl | rfl | rfl | rfl <;> simp
  refine bounded_staleness .hyphenated oneRow (fun _ => ⟨⟨.connected, true⟩, .default⟩) 300 5 _
    (timely_of_advance (Nat.zero_le _) fun e he => (hes e he).1)
    (ttlAtMost_of_replicas (fun _ => le_rfl) fun e he => (hes e he).2) staleEvents _
    List.prefix_rfl ⟨⟨1⟩, 1⟩ _ _ ?_
  exact List.mem_singleton.mpr rfl

end BackupService
