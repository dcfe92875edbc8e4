import BackupService.Lib.Linearizability
import BackupService.Provenance
import BackupService.Sequential

/-!
The service without a cache as a shared object.

What the service is for is a shelf of backups: a map from identifiers to
backups, each with its owner, on which a request looks up, adds, changes or
removes one backup of its tenant, and a callback changes one backup of
anybody (`Shelf.apply`). Whatever else is going on, every request to a
single backup and every callback does what it does to the shelf in one
instant between its start and its answer: the runs of the service are
linearizable (`uncached_linearizable`). An answer of 500 says nothing about
the shelf, so it does not count as one, and neither does the answer to a
list request, which is put together from two statements.

This is so for replicas that have no connection to Redis. What becomes of it
with one is the matter of the developments on the cache.
-/

namespace BackupService

open Lib

/-! ### The shelf -/

/-- The backups, by identifier. -/
abbrev Shelf := Uuid → Option Backup

/-- What can be done to a shelf: the requests to a single backup, and the
callbacks. -/
inductive ShelfOp
  | create (tenantId : Uuid) (req : CreateBackupRequest) (oracle : Oracle)
  | get (tenantId id : Uuid)
  | update (tenantId id : Uuid) (req : UpdateBackupRequest) (now : Timestamp)
  | delete (tenantId id : Uuid)
  | analyze (tenantId id : Uuid)
  | enqueue (tenantId id : Uuid)
  | call (rpc : Rpc) (now : Timestamp)
  deriving DecidableEq

def UpdateBackupRequest.assignments (req : UpdateBackupRequest) : Assignments where
  status := req.status.map BackupStatus.toString
  sizeBytes := req.sizeBytes

/-- The answer about a backup that may not be there. -/
def answerFor (id : Uuid) (respond : Backup → Response) : Option Backup → Reply
  | some b => .http (respond b)
  | none => .http (notFoundResponse id)

def backupResponse (b : Backup) : Response := ⟨200, .backup (.from b)⟩

def enqueuedResponse (id : Uuid) : Response := ⟨202, .enqueued "backup job enqueued" id⟩

/-- What a worker is told, according to whether the backup is there. -/
def Rpc.told (id : Uuid) (there : Bool) : Rpc → Except Status Ack
  | updateStatus _ =>
      if there then .ok ⟨true, "status updated"⟩
      else .error (.notFound ("backup " ++ id.toString ++ " not found"))
  | reportResult _ => .ok ⟨true, "result recorded"⟩

namespace Shelf

/-- What a tenant finds under an identifier. -/
def owned (s : Shelf) (tenantId id : Uuid) : Option Backup :=
  (s id).filter fun b => b.tenantId = tenantId

/-- The backup is replaced, if there is one. -/
def replace (s : Shelf) (id : Uuid) : Option Backup → Shelf
  | some b => Function.update s id (some b)
  | none => s

/-- What the operations do, and what they are answered with. -/
def apply (uuid : UuidParser) : ShelfOp → Shelf → Reply × Shelf
  | .create tenantId req oracle, s =>
      match validateSourcePath req.sourcePath with
      | .error e => (.http e.intoResponse, s)
      | .ok () =>
          let b := newBackup oracle tenantId req.sourcePath req.encryptionEnabled
          if (s b.id).isSome then (.http (databaseResponse .uniqueViolation), s)
          else (.http ⟨201, .backup (.from b)⟩, Function.update s b.id (some b))
  | .get tenantId id, s => (answerFor id backupResponse (s.owned tenantId id), s)
  | .update tenantId id req now, s =>
      let updated := (s.owned tenantId id).map (req.assignments.apply now)
      (answerFor id backupResponse updated, s.replace id updated)
  | .delete tenantId id, s =>
      (answerFor id (fun _ => ⟨204, .empty⟩) (s.owned tenantId id),
        if (s.owned tenantId id).isSome then Function.update s id none else s)
  | .analyze tenantId id, s => (answerFor id analyzeResponse (s.owned tenantId id), s)
  | .enqueue tenantId id, s =>
      (answerFor id (fun _ => enqueuedResponse id) (s.owned tenantId id), s)
  | .call rpc now, s =>
      match uuid.parse rpc.backupId with
      | .error e => (.rpc (.error (.invalidArgument ("invalid backup_id: " ++ e))), s)
      | .ok id =>
          let updated := (s id).map (rpc.assignments.apply now)
          (.rpc (rpc.told id updated.isSome), s.replace id updated)

end Shelf

/-- The shelf as an object. -/
def shelf (uuid : UuidParser) : Object Shelf ShelfOp Reply := ⟨Shelf.apply uuid⟩

/-! ### The history of a run -/

/-- What a request does to the shelf; a list request is none of its
operations. -/
def Visit.shelfOp (v : Visit) : Option ShelfOp :=
  match v.request with
  | .create req => some (.create v.claims.tenantId req v.oracle)
  | .get id => some (.get v.claims.tenantId id)
  | .list _ => none
  | .update id req => some (.update v.claims.tenantId id req v.oracle.now)
  | .delete id => some (.delete v.claims.tenantId id)
  | .analyze id => some (.analyze v.claims.tenantId id)
  | .enqueue id => some (.enqueue v.claims.tenantId id)

def Thread.visit (th : Thread) : Visit := ⟨th.claims, th.request, th.oracle⟩

/-- The names of the operations: callbacks are numbered by the events that
have been before them. -/
abbrev OpName := ReqId ⊕ ℕ

/-- What a callback returns; an internal error says nothing. -/
def returnedCall (n : ℕ) : Except Status Ack → List (Interaction OpName ShelfOp Reply)
  | .error (.internal _) => []
  | result => [.returned (.inr n) (.rpc result)]

/-- What the clients see of an event, when `n` events have been before. -/
def interactions (uuid : UuidParser) (s : State × ℕ) :
    Event → List (Interaction OpName ShelfOp Reply)
  | .start _ seq claims request oracle =>
      match s.1.inflight ⟨claims.tenantId, seq⟩, Visit.shelfOp ⟨claims, request, oracle⟩ with
      | none, some op => [.called (.inl ⟨claims.tenantId, seq⟩) op]
      | _, _ => []
  | .step id _ =>
      match s.1.inflight id with
      | none => []
      | some th =>
          match th.prog, th.visit.shelfOp with
          | .ret response, some _ =>
              if response.status = 500 then [] else [.returned (.inl id) (.http response)]
          | _, _ => []
  | .rpc call oracle env =>
      .called (.inr s.2) (.call call oracle.now) ::
        returnedCall s.2 (s.1.call uuid call oracle env).1
  | _ => []

/-- The system, with its events counted. -/
def counted (uuid : UuidParser) : Machine (State × ℕ) Event Obs :=
  (system uuid).annotated fun _ _ n => n + 1

/-- What the clients see of a run. -/
def clientHistory (uuid : UuidParser) (db : Table) (replicas : ℕ → Replica) (es : List Event) :
    List (Interaction OpName ShelfOp Reply) :=
  (counted uuid).gather (interactions uuid) (.initial db replicas, 0) es

/-! ### Where an operation takes effect -/

/-- The one statement of a request to a single backup. -/
def Visit.statement (v : Visit) : Option Sql :=
  match v.request with
  | .create req =>
      match validateSourcePath req.sourcePath with
      | .ok () => some (.insertBackup v.claims.tenantId req.sourcePath req.encryptionEnabled)
      | .error _ => none
  | .get id => some (.selectBackup id v.claims.tenantId)
  | .list _ => none
  | .update id req =>
      some (.updateBackup id v.claims.tenantId (req.status.map BackupStatus.toString) req.sizeBytes)
  | .delete id => some (.deleteBackup id v.claims.tenantId)
  | .analyze id => some (.selectBackup id v.claims.tenantId)
  | .enqueue id => some (.selectBackup id v.claims.tenantId)

/-- What the request makes of the answer to its statement. -/
def Visit.shows (v : Visit) : (q : Sql) → q.Answer → Reply
  | .insertBackup _ _ _, b => .http ⟨201, .backup (.from b)⟩
  | .selectBackup id _, answer =>
      match v.request with
      | .analyze _ => answerFor id analyzeResponse answer
      | .enqueue _ => answerFor id (fun _ => enqueuedResponse id) answer
      | _ => answerFor id backupResponse answer
  | .updateBackup id _ _ _, answer => answerFor id backupResponse answer
  | .deleteBackup id _, rowsAffected =>
      if (show ℕ from rowsAffected) = 0 then .http (notFoundResponse id) else .http ⟨204, .empty⟩
  | _, _ => .http (databaseResponse .unavailable)

section Effects

variable {t t' : Table}

/-- The condition `id = $1 AND tenant_id = $2`. -/
def owns (id tenantId : Uuid) (r : Backup) : Bool := r.id = id && r.tenantId = tenantId

theorem find?_owns (id tenantId : Uuid) :
    t.rows.find? (owns id tenantId) = Shelf.owned t.find tenantId id :=
  Except.ok.inj (exec_selectBackup_fst .stable ⟨⟨0⟩, 0⟩ t tenantId id)

/-- What an update of the rows that `p` picks does to the shelf. -/
theorem find_update_owns {id tenantId : Uuid} {c : Assignments} {now : Timestamp}
    {rows : List Backup} (h : t.update (owns id tenantId) c now = (.ok rows, t')) :
    rows.head? = (Shelf.owned t.find tenantId id).map (c.apply now) ∧
      t'.find = Shelf.replace t.find id ((Shelf.owned t.find tenantId id).map (c.apply now)) := by
  constructor
  · rw [(update_eq_ok h).1, List.head?_map, List.head?_filter, find?_owns]
  · ext1 id'
    rw [find_update h]
    cases hfind : t.find id' with
    | none =>
        cases howned : Shelf.owned t.find tenantId id with
        | none => exact hfind.symm
        | some b =>
            have hne : id' ≠ id := by
              rintro rfl
              rw [Shelf.owned, hfind] at howned
              cases howned
            exact ((Function.update_of_ne hne _ _).trans hfind).symm
    | some r =>
        have hid : r.id = id' := (Table.find_eq_some.mp hfind).2
        by_cases hp : owns id tenantId r = true
        · obtain ⟨heq, htenant⟩ : r.id = id ∧ r.tenantId = tenantId := by simpa [owns] using hp
          obtain rfl : id' = id := hid.symm.trans heq
          rw [Shelf.owned, hfind, Option.filter_some, if_pos (by simpa using htenant)]
          simp [hp, Shelf.replace]
        · rw [Option.map_some, if_neg hp]
          cases howned : Shelf.owned t.find tenantId id with
          | none => exact hfind.symm
          | some b =>
              obtain ⟨hb, htenant⟩ := Option.filter_eq_some_iff.mp howned
              have hne : id' ≠ id := by
                rintro rfl
                obtain rfl := Option.some.inj (hfind.symm.trans hb)
                exact hp (by simpa [owns, hid] using htenant)
              exact ((Function.update_of_ne hne _ _).trans hfind).symm

theorem find_delete_owns (id tenantId : Uuid) : (t.delete (owns id tenantId)).find =
    if (Shelf.owned t.find tenantId id).isSome then Function.update t.find id none else t.find := by
  ext1 id'
  rw [find_delete]
  cases hfind : t.find id' with
  | none =>
      split
      · by_cases hid : id' = id
        · rw [hid, Function.update_self]
          rfl
        · rw [Function.update_of_ne hid, hfind]
          rfl
      · rw [hfind]
        rfl
  | some r =>
      have hid : r.id = id' := (Table.find_eq_some.mp hfind).2
      by_cases heq : id' = id
      · subst heq
        rw [Shelf.owned, hfind]
        by_cases htenant : r.tenantId = tenantId <;> simp [owns, hid, htenant, hfind]
      · have hkeep : owns id tenantId r = false := by simp [owns, hid, heq]
        rw [Option.filter_some, if_pos (by rw [hkeep]; rfl)]
        split
        · rw [Function.update_of_ne heq, hfind]
        · exact hfind.symm

theorem find_insert_new {b : Backup} (h : t.insert b = .ok t') :
    t.find b.id = none ∧ t'.find = Function.update t.find b.id (some b) := by
  constructor
  · by_contra hsome
    have hmem := Table.find_isSome.mp (Option.isSome_iff_ne_none.mpr hsome)
    simp [Table.insert, hmem] at h
  · ext1 id
    rw [find_insert h, Function.update_apply]
    simp only [eq_comm]

theorem countP_owns (id tenantId : Uuid) :
    t.rows.countP (owns id tenantId) = 0 ↔ Shelf.owned t.find tenantId id = none := by
  rw [← find?_owns, List.find?_eq_none, List.countP_eq_zero]

/-- A callback does to the table what it does to the shelf. -/
theorem find_statement_replace (order : RowOrder) (oracle : Oracle) {rpc : Rpc} {id : Uuid}
    (h : rpc.Accepted ∨ t.find id = none) : ((rpc.statement id).exec order oracle t).2.find =
      Shelf.replace t.find id ((t.find id).map (rpc.assignments.apply oracle.now)) := by
  cases hfind : t.find id with
  | none => rw [exec_statement_missing order oracle hfind, Option.map_none, Shelf.replace]
  | some b =>
      have haccepted := h.resolve_right (by simp [hfind])
      ext1 id'
      by_cases hid : id' = id
      · rw [hid, exec_statement_found order oracle haccepted hfind, Option.map_some, Shelf.replace,
          Function.update_self]
      · rw [Option.map_some, Shelf.replace, Function.update_of_ne hid]
        exact (find_statement order oracle id').resolve_right fun hcase => hid hcase.1

/-- **A statement takes effect** on the table as its operation does on the
shelf, and its answer leads to the same response. -/
theorem statement_effect (uuid : UuidParser) (order : RowOrder) {v : Visit} {q : Sql} {op : ShelfOp}
    {answer : q.Answer} (hq : v.statement = some q) (hop : v.shelfOp = some op)
    (h : (q.exec order v.oracle t).1 = .ok answer) :
    (shelf uuid).apply op t.find = (v.shows q answer, (q.exec order v.oracle t).2.find) := by
  obtain ⟨claims, request, oracle⟩ := v
  cases request with
  | create req =>
      obtain rfl := Option.some.inj hop
      simp only [Visit.statement] at hq
      cases hpath : validateSourcePath req.sourcePath with
      | error e =>
          rw [hpath] at hq
          cases hq
      | ok _ =>
          rw [hpath] at hq
          obtain rfl := Option.some.inj hq
          simp only [Sql.exec] at h
          split at h
          · next hst =>
              cases hins : t.insert
                  (newBackup oracle claims.tenantId req.sourcePath req.encryptionEnabled) with
              | error e =>
                  rw [hins] at h
                  cases h
              | ok t' =>
                  rw [hins] at h
                  obtain rfl := Except.ok.inj h
                  have hafter : ((Sql.insertBackup claims.tenantId req.sourcePath
                      req.encryptionEnabled).exec order oracle t).2 = t' := by
                    simp only [Sql.exec, if_pos hst, hins]
                    rfl
                  obtain ⟨hnew, hfind⟩ := find_insert_new hins
                  have hfree : ¬ (t.find (newBackup oracle claims.tenantId req.sourcePath
                      req.encryptionEnabled).id).isSome := by simp [hnew]
                  simp only [shelf, Shelf.apply, hpath, hafter, if_neg hfree]
                  exact Prod.ext rfl hfind.symm
          · cases h
  | get id =>
      obtain rfl := Option.some.inj hop
      obtain rfl := Option.some.inj hq
      rw [exec_selectBackup_fst] at h
      rw [← Except.ok.inj h]
      rfl
  | list params => cases hop
  | update id req =>
      obtain rfl := Option.some.inj hop
      obtain rfl := Option.some.inj hq
      simp only [Sql.exec] at h ⊢
      rcases hu : t.update (owns id claims.tenantId) req.assignments oracle.now with ⟨e | rows, t'⟩
      · exact absurd ((congrArg (fun r => r.1.map List.head?) hu).symm.trans h) (by simp [Except.map])
      · have hrows : rows.head? = answer :=
          Except.ok.inj ((congrArg (fun r => r.1.map List.head?) hu).symm.trans h)
        obtain ⟨hhead, hafter⟩ := find_update_owns hu
        have hsnd := congrArg Prod.snd hu
        rw [← hrows]
        refine Prod.ext ?_ ?_
        · exact congrArg (answerFor id backupResponse) hhead.symm
        · exact hafter.symm.trans (congrArg Table.find hsnd.symm)
  | delete id =>
      obtain rfl := Option.some.inj hop
      obtain rfl := Option.some.inj hq
      have hcount : t.rows.countP (owns id claims.tenantId) = answer := Except.ok.inj h
      refine Prod.ext ?_ (find_delete_owns id claims.tenantId).symm
      show answerFor id _ (Shelf.owned t.find claims.tenantId id) =
        if (show ℕ from answer) = 0 then _ else _
      rw [← hcount]
      cases howned : Shelf.owned t.find claims.tenantId id with
      | none => rw [if_pos ((countP_owns id claims.tenantId).mpr howned)]; rfl
      | some b =>
          rw [if_neg fun hzero => by
            rw [(countP_owns id claims.tenantId).mp hzero] at howned
            cases howned]
          rfl
  | analyze id =>
      obtain rfl := Option.some.inj hop
      obtain rfl := Option.some.inj hq
      rw [exec_selectBackup_fst] at h
      rw [← Except.ok.inj h]
      rfl
  | enqueue id =>
      obtain rfl := Option.some.inj hop
      obtain rfl := Option.some.inj hq
      rw [exec_selectBackup_fst] at h
      rw [← Except.ok.inj h]
      rfl

/-- So does the statement of a callback. -/
theorem statement_call {uuid : UuidParser} (order : RowOrder) (oracle : Oracle) {rpc : Rpc} {id : Uuid}
    (hid : uuid.parse rpc.backupId = .ok id) {answer : (rpc.statement id).Answer}
    (h : ((rpc.statement id).exec order oracle t).1 = .ok answer) :
    rpc.answer id (.ok answer) = rpc.told id (t.find id).isSome ∧
      (shelf uuid).apply (.call rpc oracle.now) t.find =
        (.rpc (rpc.told id (t.find id).isSome), ((rpc.statement id).exec order oracle t).2.find) := by
  have haccepted : rpc.Accepted ∨ t.find id = none := by
    by_contra hnot
    obtain ⟨hrefused, hfound⟩ := not_or.mp hnot
    obtain ⟨b, hb⟩ := Option.ne_none_iff_exists'.mp hfound
    obtain ⟨e, he⟩ := exec_statement_refused order oracle hrefused hb
    rw [h] at he
    cases he
  constructor
  · cases rpc with
    | reportResult result => rfl
    | updateStatus msg =>
        cases hfind : t.find id with
        | none =>
            have hzero := exec_setStatus_none order oracle hfind h
            exact if_pos hzero
        | some b =>
            have hstatus := accepted_updateStatus.mp (haccepted.resolve_right (by simp [hfind]))
            obtain ⟨n, hn, hok⟩ := exec_setStatus_ok order oracle hstatus
              (Option.isSome_iff_exists.mpr ⟨b, hfind⟩)
            have hanswer : answer = n := Except.ok.inj (h.symm.trans hok)
            exact if_neg (hanswer ▸ hn)
  · rw [find_statement_replace order oracle haccepted]
    simp only [shelf, Shelf.apply, hid, Option.isSome_map]

end Effects

/-! ### How a handler comes to its answer -/

/-- How far a request has come. -/
inductive Serving
  | waiting
  /-- Its statement has been executed, and leads to this reply. -/
  | done (reply : Reply)
  /-- Its statement was answered with an error. -/
  | failed

def Serving.start (v : Visit) : Serving :=
  match v.request with
  | .create req =>
      match validateSourcePath req.sourcePath with
      | .error e => done (.http e.intoResponse)
      | .ok () => waiting
  | _ => waiting

def Serving.after (v : Visit) (g : Serving) : (o : Op) → o.Answer → Serving
  | .sql q, .ok answer => done (v.shows q answer)
  | .sql _, .error _ => failed
  | _, _ => g

/-- The statements of a list request. -/
def Sql.Lists : Sql → Prop
  | selectBackups _ _ _ _ => True
  | countBackups _ _ => True
  | _ => False

/-- A request to a single backup executes its statement, once. -/
def serving (v : Visit) : Program.Protocol Op Op.Answer Serving where
  allow g
    | .sql q => g = .waiting ∧ v.statement = some q ∨ v.shelfOp = none ∧ q.Lists
    | .redis _ => False
    | .config => True
    | .entropy _ => True
    | .publish _ => True
  rely _
    | .entropy data, r => ∀ entropy, (show Except JoinError Entropy from r) = .ok entropy →
        entropy = shannonEntropy data
    | _, _ => True
  next g o r := g.after v o r

/-- It answers what its statement has led to, or 500. -/
def Serving.Final (v : Visit) (g : Serving) (r : Response) : Prop :=
  v.shelfOp.isSome → r.status = 500 ∨ g = .done (.http r)

section Handlers

open Program

variable {state : AppState} {v : Visit} {claims : Claims} {oracle : Oracle} {g : Serving}

theorem database_serving (e : SqlError) :
    Obeys (serving v) (Serving.Final v) g (pure (databaseResponse e)) := fun _ => .inl rfl

theorem pure_serving (r : Response) :
    Obeys (serving v) (Serving.Final v) (.done (.http r)) (pure r) := fun _ => .inr rfl

section Cache

variable {α : Type} {Q : Serving → α → Prop} {f : Unit → Action α} (hcache : state.cache.redis = false)
  (h : Obeys (serving v) Q g (f ()))

include hcache h

theorem setBackup_serving (b : Backup) :
    Obeys (serving v) Q g (state.cache.setBackup b >>= f) :=
  obeys_bind.mpr (state.cache.obeys_setBackup (by simp [hcache]) fun _ => h)

theorem invalidateBackup_serving (id : Uuid) :
    Obeys (serving v) Q g (state.cache.invalidateBackup id >>= f) :=
  obeys_bind.mpr (state.cache.obeys_invalidateBackup (by simp [hcache]) fun _ => h)

theorem invalidateTenantBackups_serving (tenantId : Uuid) :
    Obeys (serving v) Q g (state.cache.invalidateTenantBackups tenantId >>= f) :=
  obeys_bind.mpr (state.cache.obeys_invalidateTenantBackups (by simp [hcache]) fun _ => h)

end Cache

theorem handle_list_serving (hcache : state.cache.redis = false) (params : ListParams) :
    Obeys (serving ⟨claims, .list params, oracle⟩) (Serving.Final ⟨claims, .list params, oracle⟩) g
      (handle state claims (.list params)) := by
  have hfinal : ∀ (g : Serving) (r : Response), Obeys (serving ⟨claims, .list params, oracle⟩)
      (Serving.Final ⟨claims, .list params, oracle⟩) g (pure r) := fun _ _ hsome => by cases hsome
  have hafter : ∀ (g : Serving) (cfg : AppConfig), Obeys (serving ⟨claims, .list params, oracle⟩)
      (Serving.Final ⟨claims, .list params, oracle⟩) g
        (listAfterLookup state claims params cfg none) := by
    intro g cfg
    refine obeys_query.mpr ⟨.inr ⟨rfl, trivial⟩, fun r _ => ?_⟩
    cases r with
    | error e => exact hfinal _ _
    | ok items =>
        refine obeys_query.mpr ⟨.inr ⟨rfl, trivial⟩, fun r _ => ?_⟩
        cases r with
        | error e => exact hfinal _ _
        | ok total =>
            dsimp only
            split
            · exact obeys_bind.mpr (state.cache.obeys_setTenantBackups (by simp [hcache])
                fun _ => hfinal _ _)
            · exact hfinal _ _
  rw [handle_list]
  refine obeys_readConfig.mpr ⟨trivial, fun cfg _ => ?_⟩
  split
  · exact obeys_bind.mpr (state.cache.obeys_getTenantBackups (by simp [hcache]) fun _ => hafter _ _)
  · exact hafter _ _

/-- **The course of a request** without a cache. -/
theorem handle_serving (hcache : state.cache.redis = false) (v : Visit) :
    Obeys (serving v) (Serving.Final v) (Serving.start v) (handle state v.claims v.request) := by
  obtain ⟨claims, request, oracle⟩ := v
  cases request with
  | create req =>
      rw [handle_create]
      cases hpath : validateSourcePath req.sourcePath with
      | error e =>
          have hstart : Serving.start ⟨claims, .create req, oracle⟩ =
              .done (.http e.intoResponse) := by
            simp only [Serving.start, hpath]
          rw [hstart]
          exact pure_serving _
      | ok _ =>
          have hstart : Serving.start ⟨claims, .create req, oracle⟩ = .waiting := by
            simp only [Serving.start, hpath]
          rw [hstart]
          refine obeys_query.mpr ⟨.inl ⟨rfl, by simp only [Visit.statement, hpath]⟩, fun r _ => ?_⟩
          cases r with
          | error e => exact database_serving e
          | ok b => exact invalidateTenantBackups_serving hcache (pure_serving _) _
  | get id =>
      rw [handle_get]
      refine obeys_bind.mpr (state.cache.obeys_getBackup (by simp [hcache]) fun _ => ?_)
      refine obeys_query.mpr ⟨.inl ⟨rfl, rfl⟩, fun r _ => ?_⟩
      rcases r with e | (_ | b)
      · exact database_serving e
      · exact pure_serving _
      · exact setBackup_serving hcache (pure_serving _) _
  | list params => exact handle_list_serving hcache params
  | update id req =>
      rw [handle_update]
      refine obeys_query.mpr ⟨.inl ⟨rfl, rfl⟩, fun r _ => ?_⟩
      rcases r with e | (_ | b)
      · exact database_serving e
      · exact pure_serving _
      · exact invalidateBackup_serving hcache
          (invalidateTenantBackups_serving hcache (pure_serving _) _) _
  | delete id =>
      rw [handle_delete]
      refine obeys_query.mpr ⟨.inl ⟨rfl, rfl⟩, fun r _ => ?_⟩
      cases r with
      | error e => exact database_serving e
      | ok rowsAffected =>
          have hanswer : ∀ n : ℕ, Obeys (serving ⟨claims, .delete id, oracle⟩)
              (Serving.Final ⟨claims, .delete id, oracle⟩)
              (.done (if n = 0 then .http (notFoundResponse id) else .http ⟨204, .empty⟩))
              (if n = 0 then pure (notFoundResponse id) else do
                state.cache.invalidateBackup id
                state.cache.invalidateTenantBackups claims.tenantId
                return ⟨204, .empty⟩) := by
            intro n
            split
            · exact pure_serving _
            · exact invalidateBackup_serving hcache
                (invalidateTenantBackups_serving hcache (pure_serving _) _) _
          exact hanswer rowsAffected
  | analyze id =>
      rw [handle_analyze]
      refine obeys_query.mpr ⟨.inl ⟨rfl, rfl⟩, fun r _ => ?_⟩
      rcases r with e | (_ | b)
      · exact database_serving e
      · exact pure_serving _
      · refine obeys_spawnEntropy.mpr ⟨trivial, fun r hr => ?_⟩
        rcases r with e | entropy
        · exact fun _ => .inl rfl
        · have hresponse : entropyResponse b entropy = analyzeResponse b := by
            rw [hr entropy rfl, entropyResponse_eq]
          show Obeys _ _ _ (pure (entropyResponse b entropy))
          rw [hresponse]
          exact pure_serving _
  | enqueue id =>
      rw [handle_enqueue]
      refine obeys_query.mpr ⟨.inl ⟨rfl, rfl⟩, fun r _ => ?_⟩
      rcases r with e | (_ | b)
      · exact database_serving e
      · exact pure_serving _
      · dsimp only
        split
        · refine obeys_publish.mpr ⟨trivial, fun r _ => ?_⟩
          cases r with
          | error e => exact fun _ => .inl rfl
          | ok _ => exact pure_serving _
        · exact fun _ => .inl rfl

end Handlers

/-- An analysis that finishes comes out as the calculator has it. -/
theorem exec_rely_serving (v : Visit) (g : Serving) (env : Env) (oracle : Oracle)
    (config : AppConfig) (clock : ℕ) (st : Store) (o : Op) :
    (serving v).rely g o (o.exec env oracle config clock st).1 := by
  cases o with
  | sql | redis | config | publish => trivial
  | entropy data =>
      intro entropy hentropy
      simp only [Op.exec] at hentropy
      split at hentropy
      · exact (Except.ok.inj hentropy).symm
      · cases hentropy

/-! ### One event -/

section Exec

variable (env : Env) (oracle : Oracle) (config : AppConfig) (clock : ℕ) (st : Store)

/-- A statement that a handler issues is not executed, or it is, and then
its answer may get lost. -/
theorem exec_sql_cases (q : Sql) :
    (∃ e, ((Op.sql q).exec env oracle config clock st).1 = .error e) ∧
        ((Op.sql q).exec env oracle config clock st).2.db = st.db ∨
      ∃ answer, (q.exec env.order oracle st.db).1 = .ok answer ∧
        ((Op.sql q).exec env oracle config clock st).2.db = (q.exec env.order oracle st.db).2 ∧
        (((Op.sql q).exec env oracle config clock st).1 = .ok answer ∨
          ∃ e, ((Op.sql q).exec env oracle config clock st).1 = .error e) := by
  cases hfault : env.sql with
  | before =>
      have hexec : (Op.sql q).exec env oracle config clock st = (.error .unavailable, st) := by
        simp only [Op.exec, hfault]
      rw [hexec]
      exact .inl ⟨⟨_, rfl⟩, rfl⟩
  | none =>
      have hexec : (Op.sql q).exec env oracle config clock st =
          ((q.exec env.order oracle st.db).1,
            { st with db := (q.exec env.order oracle st.db).2 }) := by
        simp only [Op.exec, hfault]
        rfl
      rw [hexec]
      cases hr : (q.exec env.order oracle st.db).1 with
      | error e => exact .inl ⟨⟨e, rfl⟩, exec_snd_of_error env.order oracle hr⟩
      | ok answer => exact .inr ⟨answer, rfl, rfl, .inl rfl⟩
  | after =>
      have hexec : (Op.sql q).exec env oracle config clock st =
          (.error .unavailable, { st with db := (q.exec env.order oracle st.db).2 }) := by
        simp only [Op.exec, hfault]
      rw [hexec]
      cases hr : (q.exec env.order oracle st.db).1 with
      | error e => exact .inl ⟨⟨_, rfl⟩, exec_snd_of_error env.order oracle hr⟩
      | ok answer => exact .inr ⟨answer, rfl, rfl, .inr ⟨_, rfl⟩⟩

theorem exec_lists_db {q : Sql} (h : q.Lists) :
    ((Op.sql q).exec env oracle config clock st).2.db = st.db := by
  have hsnd : (q.exec env.order oracle st.db).2 = st.db := by
    cases q with
    | selectBackups => exact exec_selectBackups_snd ..
    | countBackups => exact exec_countBackups_snd ..
    | insertBackup | selectBackup | updateBackup | deleteBackup | setStatus | setCompleted
    | setFailed => exact h.elim
  rcases exec_sql_cases env oracle config clock st q with ⟨-, hdb⟩ | ⟨_, -, hdb, -⟩
  · exact hdb
  · exact hdb.trans hsnd

end Exec

/-- The stage of the request's operation is what its handler takes it for. -/
def Serving.Matches (op : ShelfOp) : Serving → Stage ShelfOp Reply → Prop
  | waiting, stage => stage = .called op
  | done reply, stage => stage = .applied reply
  | failed, _ => True

/-- A handler that is in course. -/
def Thread.Serving (th : Thread) (stage : Stage ShelfOp Reply) : Prop :=
  ∃ g, Program.Obeys (serving th.visit) (Serving.Final th.visit) g th.prog ∧
    ∀ op, th.visit.shelfOp = some op → g.Matches op stage

/-- The points of effect so far, after requests with these names. -/
structure Linearized (uuid : UuidParser) (db : Table) (names : List ReqId) (s : State × ℕ)
    (ps : List (Point OpName ShelfOp Reply)) (stage : OpName → Stage ShelfOp Reply) : Prop where
  trace : (shelf uuid).Trace db.find ps stage s.1.store.db.find
  uncached : ∀ n, (s.1.replicas n).state.cache.redis = false
  threads : ∀ id th, s.1.inflight id = some th → id ∈ names ∧ th.Serving (stage (.inl id))
  fresh : ∀ id, id ∉ names → stage (.inl id) = .idle
  later : ∀ n, s.2 ≤ n → stage (.inr n) = .idle

/-- The name of a request that is started. -/
def Event.name : Event → Option ReqId
  | start _ seq claims _ _ => some ⟨claims.tenantId, seq⟩
  | _ => none

/-- What follows an event: the points that its interactions come from. -/
def Follows (uuid : UuidParser) (db : Table) (names : List ReqId) (s s' : State × ℕ)
    (ps : List (Point OpName ShelfOp Reply)) (e : Event) : Prop :=
  ∃ qs stage', history qs = interactions uuid s e ∧ Linearized uuid db names s' (ps ++ qs) stage'

/-- A path that is refused has no statement to wait for. -/
theorem start_done (uuid : UuidParser) {v : Visit} {op : ShelfOp} {reply : Reply}
    (hop : v.shelfOp = some op) (h : Serving.start v = .done reply) (s : Shelf) :
    (shelf uuid).apply op s = (reply, s) := by
  obtain ⟨claims, request, oracle⟩ := v
  cases request with
  | create req =>
      obtain rfl := Option.some.inj hop
      simp only [Serving.start] at h
      cases hpath : validateSourcePath req.sourcePath with
      | error e =>
          rw [hpath] at h
          obtain rfl := Serving.done.inj h
          simp only [shelf, Shelf.apply, hpath]
      | ok _ =>
          rw [hpath] at h
          cases h
  | get | list | update | delete | analyze | enqueue => cases h

theorem start_ne_failed (v : Visit) : Serving.start v ≠ .failed := by
  unfold Serving.start
  split
  · split <;> simp
  · simp

theorem shelfOp_of_statement {v : Visit} {q : Sql} (h : v.statement = some q) :
    ∃ op, v.shelfOp = some op := by
  obtain ⟨claims, request, oracle⟩ := v
  cases request with
  | list => cases h
  | create | get | update | delete | analyze | enqueue => exact ⟨_, rfl⟩

/-- What a worker is told is no internal error. -/
theorem returnedCall_told (n : ℕ) (id : Uuid) (there : Bool) (rpc : Rpc) :
    returnedCall n (rpc.told id there) = [.returned (.inr n) (.rpc (rpc.told id there))] := by
  cases rpc with
  | reportResult result => rfl
  | updateStatus msg => cases there <;> rfl

section Events

variable {uuid : UuidParser} {db : Table} {names names' : List ReqId} {s s' : State × ℕ}
  {ps qs : List (Point OpName ShelfOp Reply)} {stage stage' : OpName → Stage ShelfOp Reply}
  {e : Event}

/-- An event that concerns the operation `i`. -/
theorem Linearized.move (h : Linearized uuid db names s ps stage)
    (hqs : history qs = interactions uuid s e)
    (htrace : (shelf uuid).Trace db.find (ps ++ qs) stage' s'.1.store.db.find) {i : OpName}
    (hstage : ∀ j, j ≠ i → stage' j = stage j)
    (hcache : ∀ n, (s'.1.replicas n).state = (s.1.replicas n).state)
    (hthreads : ∀ id th, s'.1.inflight id = some th →
      .inl id ≠ i ∧ s.1.inflight id = some th ∨ id ∈ names' ∧ th.Serving (stage' (.inl id)))
    (hnames : names ⊆ names') (hname : ∀ id, i = .inl id → id ∈ names')
    (hcount : s.2 ≤ s'.2) (hnumber : ∀ n, i = .inr n → n < s'.2) :
    Follows uuid db names' s s' ps e := by
  refine ⟨qs, stage', hqs, htrace, fun n => ?_, fun id th hth => ?_, fun id hid => ?_,
    fun n hn => ?_⟩
  · rw [hcache]
    exact h.uncached n
  · rcases hthreads id th hth with ⟨hne, hold⟩ | hnew
    · obtain ⟨hmem, hserving⟩ := h.threads id th hold
      refine ⟨hnames hmem, ?_⟩
      rw [hstage _ hne]
      exact hserving
    · exact hnew
  · have hne : (.inl id : OpName) ≠ i := fun heq => hid (hname id heq.symm)
    rw [hstage _ hne]
    exact h.fresh id fun hmem => hid (hnames hmem)
  · have hne : (.inr n : OpName) ≠ i := fun heq => absurd (hnumber n heq.symm) (by omega)
    rw [hstage _ hne]
    exact h.later n (by omega)

/-- An event at which nothing happens to the table, and to no request but
that it may be gone. -/
theorem Linearized.quiet (h : Linearized uuid db names s ps stage)
    (he : interactions uuid s e = []) (hdb : s'.1.store.db = s.1.store.db)
    (hcache : ∀ n, (s'.1.replicas n).state = (s.1.replicas n).state)
    (hinflight : ∀ id th, s'.1.inflight id = some th → s.1.inflight id = some th)
    (hcount : s.2 ≤ s'.2) : Follows uuid db names s s' ps e := by
  refine ⟨[], stage, he.symm, ?_, fun n => ?_, fun id th hth => ?_, h.fresh, fun n hn => ?_⟩
  · rw [List.append_nil, hdb]
    exact h.trace
  · rw [hcache]
    exact h.uncached n
  · exact h.threads id th (hinflight id th hth)
  · exact h.later n (by omega)

/-- The start of a request calls its operation, and a path that is refused
is answered at once. -/
theorem Linearized.start (h : Linearized uuid db names s ps stage) {replica seq : ℕ} {claims : Claims}
    {request : Request} {oracle : Oracle} (hnew : ⟨claims.tenantId, seq⟩ ∉ names) :
    Follows uuid db (names ++ [⟨claims.tenantId, seq⟩]) s
      (s.1.start replica seq claims request oracle, s.2 + 1) ps
      (.start replica seq claims request oracle) := by
  have hfree : s.1.inflight ⟨claims.tenantId, seq⟩ = none := by
    by_contra hsome
    obtain ⟨th, hth⟩ := Option.ne_none_iff_exists'.mp hsome
    exact hnew (h.threads _ th hth).1
  have hidle := h.fresh _ hnew
  have hstart : s.1.start replica seq claims request oracle =
      s.1.setThread ⟨claims.tenantId, seq⟩ (some (s.1.newThread replica claims request oracle)) := by
    simp only [State.start, hfree]
  have hcourse := handle_serving (h.uncached replica) ⟨claims, request, oracle⟩
  -- Whatever the points are, the other requests stay as they are.
  have hmove : ∀ (qs : List (Point OpName ShelfOp Reply)) {stage' : OpName → Stage ShelfOp Reply},
      history qs = interactions uuid s (.start replica seq claims request oracle) →
      (shelf uuid).Trace db.find (ps ++ qs) stage' s.1.store.db.find →
      (∀ j, j ≠ .inl ⟨claims.tenantId, seq⟩ → stage' j = stage j) →
      (∀ op, Visit.shelfOp ⟨claims, request, oracle⟩ = some op →
        (Serving.start ⟨claims, request, oracle⟩).Matches op
          (stage' (.inl ⟨claims.tenantId, seq⟩))) →
      Follows uuid db (names ++ [⟨claims.tenantId, seq⟩]) s
        (s.1.start replica seq claims request oracle, s.2 + 1) ps
        (.start replica seq claims request oracle) := by
    intro qs stage' hqs htrace hstage hmatches
    rw [hstart]
    refine h.move hqs htrace hstage (fun n => rfl) (fun id th hth => ?_)
      (List.subset_append_left _ _) (fun id hid => ?_) (Nat.le_succ _) (fun n hn => by cases hn)
    · by_cases hid : id = ⟨claims.tenantId, seq⟩
      · subst hid
        rw [State.setThread_inflight_self] at hth
        obtain rfl := Option.some.inj hth
        exact .inr ⟨List.mem_append_right _ List.mem_cons_self, _, hcourse, hmatches⟩
      · rw [State.setThread_inflight_of_ne _ _ hid] at hth
        exact .inl ⟨fun heq => hid (Sum.inl.inj heq), hth⟩
    · rw [← Sum.inl.inj hid]
      exact List.mem_append_right _ List.mem_cons_self
  cases hop : Visit.shelfOp ⟨claims, request, oracle⟩ with
  | none =>
      refine hmove [] ?_ ?_ (fun j hj => rfl) (fun op hop' => ?_)
      · simp only [interactions, hfree, hop]
        rfl
      · rw [List.append_nil]
        exact h.trace
      · rw [hop] at hop'
        cases hop'
  | some op =>
      have hcalled := h.trace.called op hidle
      cases hserved : Serving.start ⟨claims, request, oracle⟩ with
      | failed => exact absurd hserved (start_ne_failed _)
      | waiting =>
          refine hmove [.called (.inl ⟨claims.tenantId, seq⟩) op] ?_ hcalled
            (fun j hj => Function.update_of_ne hj _ _) (fun op' hop' => ?_)
          · simp only [interactions, hfree, hop]
            rfl
          · obtain rfl := Option.some.inj (hop.symm.trans hop')
            rw [hserved, Function.update_self]
            rfl
      | done reply =>
          have happly := start_done uuid hop hserved s.1.store.db.find
          have happlied := hcalled.applied (Function.update_self ..)
          rw [happly, List.append_assoc] at happlied
          refine hmove _ ?_ happlied (fun j hj => ?_) (fun op' hop' => ?_)
          · simp only [interactions, hfree, hop]
            rfl
          · rw [Function.update_of_ne hj, Function.update_of_ne hj]
          · rw [hserved, Function.update_self]
            rfl

/-- A move of a request. Its operation takes effect when its statement is
executed, and returns when its handler does. -/
theorem Linearized.step (h : Linearized uuid db names s ps stage) (id : ReqId) (env : Env) :
    Follows uuid db names s ((s.1.stepThread id env).1, s.2 + 1) ps (.step id env) := by
  cases hth : s.1.inflight id with
  | none =>
      rw [State.stepThread_none hth]
      refine h.quiet ?_ rfl (fun n => rfl) (fun id th hth => hth) (Nat.le_succ _)
      simp only [interactions, hth]
  | some th =>
      obtain ⟨hmem, g, hobeys, hmatches⟩ := h.threads id th hth
      cases hprog : th.prog with
      | ret response =>
          rw [State.stepThread_ret hth hprog]
          rw [hprog] at hobeys
          have hgone : ∀ id' th', (s.1.setThread id none).inflight id' = some th' →
              id' ≠ id ∧ s.1.inflight id' = some th' := by
            intro id' th' hth'
            have hne : id' ≠ id := by
              rintro rfl
              rw [State.setThread_inflight_self] at hth'
              cases hth'
            rw [State.setThread_inflight_of_ne _ _ hne] at hth'
            exact ⟨hne, hth'⟩
          cases hop : th.visit.shelfOp with
          | none =>
              refine h.quiet ?_ rfl (fun n => rfl) (fun id' th' hth' => (hgone id' th' hth').2)
                (Nat.le_succ _)
              simp only [interactions, hth, hprog, hop]
          | some op =>
              by_cases hstatus : response.status = 500
              · refine h.quiet ?_ rfl (fun n => rfl) (fun id' th' hth' => (hgone id' th' hth').2)
                  (Nat.le_succ _)
                simp only [interactions, hth, hprog, hop, if_pos hstatus]
              · -- It has not failed, so its statement has led to this answer.
                have hdone : g = .done (.http response) :=
                  (hobeys (Option.isSome_iff_exists.mpr ⟨op, hop⟩)).resolve_left hstatus
                have happlied : stage (.inl id) = .applied (.http response) := by
                  have := hmatches op hop
                  rwa [hdone] at this
                refine h.move ?_ (h.trace.returned happlied)
                  (fun j hj => Function.update_of_ne hj _ _) (fun n => rfl)
                  (fun id' th' hth' => ?_) (List.Subset.refl _) (fun id' hid => ?_)
                  (Nat.le_succ _) (fun n hn => by cases hn)
                · simp only [interactions, hth, hprog, hop, if_neg hstatus]
                  rfl
                · obtain ⟨hne, hold⟩ := hgone id' th' hth'
                  exact .inl ⟨fun heq => hne (Sum.inl.inj heq), hold⟩
                · rwa [← Sum.inl.inj hid]
      | op o k =>
          rw [State.stepThread_op hth hprog]
          rw [hprog] at hobeys
          obtain ⟨hallow, hnext⟩ := hobeys
          -- Whatever the points are, the other requests stay as they are.
          have hmove : ∀ (qs : List (Point OpName ShelfOp Reply))
              {stage' : OpName → Stage ShelfOp Reply} {after : Shelf}, history qs = [] →
              (shelf uuid).Trace db.find (ps ++ qs) stage' after →
              (s.1.exec th env o).2.db.find = after → (∀ j, j ≠ .inl id → stage' j = stage j) →
              (∀ op, th.visit.shelfOp = some op →
                (g.after th.visit o (s.1.exec th env o).1).Matches op (stage' (.inl id))) →
              Follows uuid db names s
                ((s.1.setStore (s.1.exec th env o).2).setThread id
                  (some { th with prog := k (s.1.exec th env o).1 }), s.2 + 1) ps
                (.step id env) := by
            intro qs stage' after hqs htrace hafter hstage hmatches'
            subst hafter
            refine h.move ?_ htrace hstage (fun n => rfl) (fun id' th' hth' => ?_)
              (List.Subset.refl _) (fun id' hid => ?_) (Nat.le_succ _) (fun n hn => by cases hn)
            · simp only [interactions, hth, hprog]
              exact hqs
            · by_cases hid : id' = id
              · subst hid
                rw [State.setThread_inflight_self] at hth'
                obtain rfl := Option.some.inj hth'
                exact .inr ⟨hmem, _, hnext _ (exec_rely_serving ..), hmatches'⟩
              · rw [State.setThread_inflight_of_ne _ _ hid] at hth'
                exact .inl ⟨fun heq => hid (Sum.inl.inj heq), hth'⟩
            · rwa [← Sum.inl.inj hid]
          -- A move that leaves the table alone has no point.
          have hsame : (s.1.exec th env o).2.db = s.1.store.db →
              (∀ op, th.visit.shelfOp = some op →
                (g.after th.visit o (s.1.exec th env o).1).Matches op (stage (.inl id))) →
              Follows uuid db names s
                ((s.1.setStore (s.1.exec th env o).2).setThread id
                  (some { th with prog := k (s.1.exec th env o).1 }), s.2 + 1) ps
                (.step id env) := by
            intro hdb hmatches'
            refine hmove [] rfl ?_ (congrArg Table.find hdb) (fun j hj => rfl) hmatches'
            rw [List.append_nil]
            exact h.trace
          cases o with
          | redis c => exact hallow.elim
          | config | entropy => exact hsame rfl hmatches
          | publish job =>
              refine hsame ?_ hmatches
              simp only [State.exec, Op.exec]
              split <;> rfl
          | sql q =>
              rcases hallow with ⟨rfl, hq⟩ | ⟨hnone, hlists⟩
              · obtain ⟨op, hop⟩ := shelfOp_of_statement hq
                have hcalled : stage (.inl id) = .called op := hmatches op hop
                rcases exec_sql_cases env th.oracle (s.1.replicas th.replica).config s.1.clock
                  s.1.store q with ⟨⟨e, he⟩, hdb⟩ | ⟨answer, hanswer, hdb, hgot⟩
                · refine hsame hdb fun op' hop' => ?_
                  rw [State.exec, he]
                  trivial
                · have heffect := statement_effect uuid env.order hq hop hanswer
                  have happlied := h.trace.applied hcalled
                  rw [heffect] at happlied
                  refine hmove _ rfl happlied (congrArg Table.find hdb)
                    (fun j hj => Function.update_of_ne hj _ _) fun op' hop' => ?_
                  rw [Function.update_self]
                  rcases hgot with hgot | ⟨e, hgot⟩
                  · rw [State.exec, hgot]
                    rfl
                  · rw [State.exec, hgot]
                    trivial
              · refine hsame (exec_lists_db _ _ _ _ _ hlists) fun op hop => ?_
                rw [hnone] at hop
                cases hop

/-- A callback. -/
theorem Linearized.call (h : Linearized uuid db names s ps stage) (rpc : Rpc) (oracle : Oracle)
    (env : Env) : Follows uuid db names s (s.1.setStore (s.1.call uuid rpc oracle env).2, s.2 + 1) ps
      (.rpc rpc oracle env) := by
  have hidle := h.later s.2 (Nat.le_refl _)
  have hcalled := h.trace.called (.call rpc oracle.now) hidle
  have hmove : ∀ {qs : List (Point OpName ShelfOp Reply)} {stage' : OpName → Stage ShelfOp Reply}
      {after : Shelf}, (shelf uuid).Trace db.find (ps ++ qs) stage' after →
      (∀ j, j ≠ .inr s.2 → stage' j = stage j) →
      (s.1.call uuid rpc oracle env).2.db.find = after →
      history qs = interactions uuid s (.rpc rpc oracle env) →
      Follows uuid db names s (s.1.setStore (s.1.call uuid rpc oracle env).2, s.2 + 1) ps
        (.rpc rpc oracle env) := by
    intro qs stage' after htrace hstage hafter hqs
    subst hafter
    refine h.move hqs htrace hstage (fun n => rfl) (fun id th hth => .inl ⟨by simp, hth⟩)
      (List.Subset.refl _) (fun id hid => by cases hid) (Nat.le_succ _) (fun n hn => ?_)
    rw [Sum.inr.inj hn]
    exact Nat.lt_succ_self n
  have hupdate : ∀ st : Stage ShelfOp Reply, ∀ j, j ≠ .inr s.2 →
      Function.update stage (.inr s.2) st j = stage j := fun st j hj => Function.update_of_ne hj _ _
  cases hid : uuid.parse rpc.backupId with
  | error e =>
      have happly : (shelf uuid).apply (.call rpc oracle.now) s.1.store.db.find =
          (.rpc (.error (.invalidArgument ("invalid backup_id: " ++ e))), s.1.store.db.find) := by
        simp only [shelf, Shelf.apply, hid]
      have happlied := hcalled.applied (Function.update_self ..)
      rw [happly] at happlied
      have hreturned := happlied.returned (Function.update_self ..)
      rw [List.append_assoc, List.append_assoc, Function.update_idem, Function.update_idem]
        at hreturned
      refine hmove hreturned (hupdate _) ?_ ?_
      · rw [State.call_malformed _ _ _ hid]
      · rw [interactions, State.call_malformed _ _ _ hid]
        rfl
  | ok id =>
      have hcall := @State.call_eq s.1 uuid rpc oracle env id hid
      rcases exec_sql_cases env oracle (s.1.replicas 0).config s.1.clock s.1.store (rpc.statement id)
        with ⟨⟨e, he⟩, hdb⟩ | ⟨answer, hanswer, hdb, hgot⟩
      · refine hmove hcalled (hupdate _) ?_ ?_
        · rw [hcall]
          exact congrArg Table.find hdb
        · rw [interactions, hcall, he, Rpc.answer_error]
          rfl
      · obtain ⟨htold, happly⟩ := statement_call env.order oracle hid hanswer
        have happlied := hcalled.applied (Function.update_self ..)
        rw [happly] at happlied
        rcases hgot with hgot | ⟨e, hgot⟩
        · have hreturned := happlied.returned (Function.update_self ..)
          rw [List.append_assoc, List.append_assoc, Function.update_idem, Function.update_idem]
            at hreturned
          refine hmove hreturned (hupdate _) ?_ ?_
          · rw [hcall]
            exact congrArg Table.find hdb
          · rw [interactions, hcall, hgot, htold, returnedCall_told]
            rfl
        · rw [List.append_assoc, Function.update_idem] at happlied
          refine hmove happlied (hupdate _) ?_ ?_
          · rw [hcall]
            exact congrArg Table.find hdb
          · rw [interactions, hcall, hgot, Rpc.answer_error]
            rfl

/-- **One event.** -/
theorem Linearized.event (h : Linearized uuid db names s ps stage) (e : Event)
    (hname : ∀ id, e.name = some id → id ∉ names) :
    Follows uuid db (names ++ e.name.toList) s ((counted uuid).step s e).1 ps e := by
  cases e with
  | start replica seq claims request oracle => exact h.start (hname _ rfl)
  | step id env =>
      rw [show (Event.step id env).name.toList = [] from rfl, List.append_nil]
      exact h.step id env
  | rpc rpc oracle env =>
      rw [show (Event.rpc rpc oracle env).name.toList = [] from rfl, List.append_nil]
      exact h.call rpc oracle env
  | drop id =>
      rw [show (Event.drop id).name.toList = [] from rfl, List.append_nil]
      refine h.quiet rfl rfl (fun n => rfl) (fun id' th hth => ?_) (Nat.le_succ _)
      change (s.1.setThread id none).inflight id' = some th at hth
      by_cases hid : id' = id
      · rw [hid, State.setThread_inflight_self] at hth
        cases hth
      · rwa [State.setThread_inflight_of_ne _ _ hid] at hth
  | configUpdate replica update =>
      rw [show (Event.configUpdate replica update).name.toList = [] from rfl, List.append_nil]
      refine h.quiet rfl rfl (fun n => ?_) (fun id th hth => hth) (Nat.le_succ _)
      show (Function.update s.1.replicas replica _ n).state = _
      by_cases hn : n = replica
      · rw [hn, Function.update_self]
      · rw [Function.update_of_ne hn]
  | expire key =>
      rw [show (Event.expire key).name.toList = [] from rfl, List.append_nil]
      exact h.quiet rfl rfl (fun n => rfl) (fun id th hth => hth) (Nat.le_succ _)
  | advance clock =>
      rw [show (Event.advance clock).name.toList = [] from rfl, List.append_nil]
      exact h.quiet rfl rfl (fun n => rfl) (fun id th hth => hth) (Nat.le_succ _)

end Events

/-! ### Runs -/

section Runs

variable (uuid : UuidParser) (db : Table) (replicas : ℕ → Replica)
  (hcache : ∀ n, (replicas n).state.cache.redis = false)

include hcache

/-- Points of effect for a run. -/
theorem linearized_run {es : List Event} (hnames : (es.filterMap Event.name).Nodup) :
    ∃ ps stage, history ps = clientHistory uuid db replicas es ∧
      Linearized uuid db (es.filterMap Event.name)
        ((counted uuid).run (.initial db replicas, 0) es) ps stage := by
  induction es using List.reverseRecOn with
  | nil =>
      refine ⟨[], fun _ => .idle, rfl, .start, hcache, fun id th hth => ?_, fun _ _ => rfl,
        fun _ _ => rfl⟩
      cases hth
  | append_singleton es e ih =>
      rw [List.filterMap_append] at hnames ⊢
      obtain ⟨hes, -, hdisjoint⟩ := List.nodup_append.mp hnames
      obtain ⟨ps, stage, hhistory, hlinearized⟩ := ih hes
      have hname : ∀ id, e.name = some id → id ∉ es.filterMap Event.name := by
        intro id hid hmem
        exact hdisjoint id hmem id (List.mem_filterMap.mpr ⟨e, List.mem_singleton_self e, hid⟩) rfl
      obtain ⟨qs, stage', hqs, hnext⟩ := hlinearized.event e hname
      refine ⟨ps ++ qs, stage', ?_, ?_⟩
      · rw [clientHistory, Machine.gather_concat, ← clientHistory, ← hhistory, ← hqs]
        exact List.filterMap_append ..
      · rw [Machine.run_concat]
        convert hnext using 2
        cases hname : e.name <;> simp [hname]

/-- **Linearizability.** What clients see of replicas without a cache, in
any run, is what they would see of a shelf on which every operation is
carried out at once, at some instant between its call and its return. -/
theorem uncached_linearizable {es : List Event} (hnames : (es.filterMap Event.name).Nodup) :
    ∃ order, (shelf uuid).Linearization db.find (clientHistory uuid db replicas es)
      ((system uuid).run (.initial db replicas) es).store.db.find order := by
  obtain ⟨ps, stage, hhistory, hlinearized⟩ := linearized_run uuid db replicas hcache hnames
  refine ⟨effects ps, ?_⟩
  have hrun : ((counted uuid).run (.initial db replicas, 0) es).1 =
      (system uuid).run (.initial db replicas) es := Machine.run_annotated ..
  rw [← hhistory, ← hrun]
  exact hlinearized.trace.linearization

end Runs

section OldAnswer

/-- Replicas without Redis and RabbitMQ. -/
def aloneReplicas : ℕ → Replica := fun _ => ⟨⟨.noop, false⟩, .default⟩

def owner : Claims := ⟨"user", ⟨1⟩, [], 0, 0⟩

/-- A GET reads the row before a PATCH changes it, and answers after the
PATCH has answered. -/
def oldAnswer : List Event :=
  [.start 0 0 owner (.update ⟨7⟩ ⟨some .running, none⟩) ⟨⟨0⟩, 1⟩, .start 1 1 owner (.get ⟨7⟩) ⟨⟨0⟩, 1⟩,
    .step ⟨⟨1⟩, 1⟩ {}, .step ⟨⟨1⟩, 0⟩ {}, .step ⟨⟨1⟩, 0⟩ {}, .step ⟨⟨1⟩, 1⟩ {}]

/-- What clients see of it: the GET answers with what was there first. -/
theorem uncached_linearizable_oldAnswer :
    (clientHistory .hyphenated oneRow aloneReplicas oldAnswer).drop 2 =
      [.returned (.inl ⟨⟨1⟩, 0⟩)
          (.http ⟨200, .backup (.from ⟨⟨7⟩, ⟨1⟩, "/data", 0, "running", false, 0, 1⟩)⟩),
        .returned (.inl ⟨⟨1⟩, 1⟩)
          (.http ⟨200, .backup (.from ⟨⟨7⟩, ⟨1⟩, "/data", 0, "pending", false, 0, 0⟩)⟩)] ∧
      ∃ order, (shelf .hyphenated).Linearization oneRow.find
        (clientHistory .hyphenated oneRow aloneReplicas oldAnswer)
        ((system .hyphenated).run (.initial oneRow aloneReplicas) oldAnswer).store.db.find order :=
  ⟨rfl, uncached_linearizable .hyphenated oneRow aloneReplicas (fun _ => rfl) (by decide)⟩

end OldAnswer

end BackupService
