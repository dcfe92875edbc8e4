import BackupService.Provenance
import BackupService.Refinement

/-!
A ledger of the changes and the deletions in a run.

A handler that has changed a row deletes the keys the row is cached under.
The ledger is computed from what a run shows: at which moment each request
has looked at the table, and for each key the latest change whose author
has deleted the key.

Something that has been read from the table is sound (`View.Sound`) as long
as it is either still what the table says, or a later change is on record.
Every operation that a protocol allows keeps sound what has been sound, for
what the handlers have in their hands and for what is in Redis.
-/

namespace BackupService

open Lib

/-! ### The ledger -/

structure Ledger where
  /-- The number of operations and responses so far. -/
  moment : ℕ
  /-- When a request has last executed a statement; the count of a page
  belongs to the statement before it. -/
  seen : ReqId → ℕ
  /-- The latest of the statements whose requests have deleted the key. -/
  done : Key → ℕ

def Ledger.empty : Ledger := ⟨0, fun _ => 0, fun _ => 0⟩

/-- The moment at which a request has looked at the table, after one more
operation of it. -/
def Ledger.look (L : Ledger) (id : ReqId) : Op → ReqId → ℕ
  | .sql (.countBackups _ _) => L.seen
  | .sql _ => Function.update L.seen id (L.moment + 1)
  | _ => L.seen

def Ledger.note (L : Ledger) : Obs → Ledger
  | .performed id o _ =>
      { moment := L.moment + 1
        seen := L.look id o
        done := match o with
          | .redis (.del key) => Function.update L.done key (max (L.done key) (L.seen id))
          | _ => L.done }
  | .responded _ _ _ => { L with moment := L.moment + 1 }
  | .called _ _ => { L with moment := L.moment + 1 }

/-- The phases of the requests in flight. -/
def notePhase (phase : ReqId → Phase) : Obs → ReqId → Phase
  | .performed id o r => Function.update phase id ((phase id).after o r)
  | .responded id _ _ => Function.update phase id .start
  | .called _ _ => phase

/-- The ledger of a run. -/
def ledger (uuid : UuidParser) (s : State) (es : List Event) : Ledger :=
  ((system uuid).trace s es).foldl Ledger.note .empty

def phases (uuid : UuidParser) (s : State) (es : List Event) : ReqId → Phase :=
  ((system uuid).trace s es).foldl notePhase fun _ => .start

/-! ### Quiet runs -/

/-- No fault, no timeout, no callback and no change of the configuration. -/
def Event.Quiet (order : RowOrder) : Event → Prop
  | start _ _ _ _ _ => True
  | step _ env => env.FaultFree ∧ env.order = order
  | expire _ => True
  | advance _ => True
  | drop _ => False
  | rpc _ _ _ => False
  | configUpdate _ _ => False

/-- No replica has done anything yet; all of them have a connection to
Redis and the same configuration. -/
def State.connected (db : Table) (config : AppConfig) (amqpChannel : ℕ → Bool) : State :=
  .initial db fun replica => ⟨⟨.connected, amqpChannel replica⟩, config⟩

/-- A request fills a key. -/
def Obs.fill : Obs → Option (ReqId × Key)
  | performed id (.redis (.setEx key _ _)) _ => some (id, key)
  | _ => none

/-- No request fills a key after a later change has been followed by the
deletion of the key. -/
def NoLateFill (uuid : UuidParser) (s : State) (es : List Event) : Prop :=
  ∀ pre e obs id key, pre ++ [e] <+: es →
    obs ∈ ((system uuid).step ((system uuid).run s pre) e).2 → obs.fill = some (id, key) →
      (ledger uuid s pre).done key ≤ (ledger uuid s pre).seen id

/-! ### Statements about a key -/

/-- What the table says about the key; a statement that does not touch the
key does not change it. -/
def About (order : RowOrder) (key : Key) (p : Table → Prop) : Prop :=
  ∀ oracle q t, ¬ Sql.Touches t q key → p t → p (q.exec order oracle t).2

section About

variable {order : RowOrder}

theorem about_fresh {limit offset : ℤ} (F : Freshness order limit offset) (key : Key) (v : CacheValue) :
    About order key fun t => F.fresh t key v := by
  intro oracle q t htouch hfresh
  cases key with
  | backup id => exact F.frame_row (fun b hb => exec_find order oracle hb htouch) hfresh
  | tenantBackups tenantId => exact F.frame_page (exec_restrict_eq order oracle htouch) hfresh

theorem about_row (b : Backup) : About order (.backup b.id) fun t => t.find b.id = some b :=
  fun oracle _ _ htouch hfind => exec_find order oracle hfind htouch

theorem about_page (tenantId : Uuid) (p : List Backup → Prop) (status : Option String)
    (limit offset : ℤ) : About order (.tenantBackups tenantId) fun t =>
      p (t.page order tenantId status limit offset) := by
  intro oracle q t htouch hp
  rw [← page_restrict, exec_restrict_eq order oracle htouch, page_restrict]
  exact hp

theorem about_count (tenantId : Uuid) (p : ℤ → Prop) (status : Option String) :
    About order (.tenantBackups tenantId) fun t => p (t.count tenantId status) := by
  intro oracle q t htouch hp
  rw [← count_restrict, exec_restrict_eq order oracle htouch, count_restrict]
  exact hp

theorem About.and {key : Key} {p p' : Table → Prop} (h : About order key p)
    (h' : About order key p') : About order key fun t => p t ∧ p' t :=
  fun oracle q t htouch hp => ⟨h oracle q t htouch hp.1, h' oracle q t htouch hp.2⟩

/-- A request that has changed the table owes the keys it has touched. -/
theorem owed_of_touches (oracle : Oracle) (g : Phase) {tenantId : Uuid} {q : Sql}
    (hq : q.OnBehalfOf tenantId) (t : Table) : (q.exec order oracle t).2 = t ∨
      ∀ key, q.Touches t key → key ∈ (g.afterSql q (q.exec order oracle t).1).owed := by
  cases q with
  | insertBackup t' sourcePath encryptionEnabled =>
      rcases hr : ((Sql.insertBackup t' sourcePath encryptionEnabled).exec order oracle t).1 with e | b
      · exact .inl (exec_snd_of_error order oracle hr)
      · exact .inr fun key hkey => List.mem_singleton.mpr hkey
  | selectBackup id t' => exact .inl rfl
  | selectBackups t' status limit offset => exact .inl (exec_selectBackups_snd ..)
  | countBackups t' status => exact .inl (exec_countBackups_snd ..)
  | updateBackup id t' status sizeBytes =>
      rcases hr : ((Sql.updateBackup id t' status sizeBytes).exec order oracle t).1 with e | (_ | b)
      · exact .inl (exec_snd_of_error order oracle hr)
      · exact .inl (exec_updateBackup_none order oracle hr)
      · refine .inr fun key hkey => ?_
        rcases hkey.1.eq_or_eq hkey.2 with rfl | rfl
        · exact List.mem_cons_self
        · exact List.mem_cons_of_mem _ List.mem_cons_self
  | deleteBackup id t' =>
      rcases hr : ((Sql.deleteBackup id t').exec order oracle t).1 with e | n
      · exact .inl (exec_snd_of_error order oracle hr)
      · by_cases hn : (show ℕ from n) = 0
        · obtain rfl : n = (0 : ℕ) := hn
          exact .inl (exec_deleteBackup_zero order oracle hr)
        · refine .inr fun key hkey => ?_
          simp only [Phase.afterSql, if_neg hn]
          rcases hkey.1.eq_or_eq hkey.2 with rfl | rfl
          · exact List.mem_cons_self
          · exact List.mem_cons_of_mem _ List.mem_cons_self
  | setStatus id status => exact hq.elim
  | setCompleted id sizeBytes => exact hq.elim
  | setFailed id => exact hq.elim

end About

/-! ### Views -/

/-- The table, and what is on record about the requests. -/
structure View where
  db : Table
  ledger : Ledger
  phase : ReqId → Phase

/-- The request has changed the table after the moment `n`, and it has still
to delete the key. -/
def View.Owes (v : View) (id : ReqId) (key : Key) (n : ℕ) : Prop :=
  key ∈ (v.phase id).owed ∧ n < v.ledger.seen id

/-- What the table has said about the key by the moment `n` it still says.
Otherwise a later change is on record, whose author has deleted the key or
has still to do so. -/
def View.Sound (v : View) (key : Key) (n : ℕ) (p : Table → Prop) : Prop :=
  p v.db ∨ (∃ id, v.Owes id key n) ∨ n < v.ledger.done key

/-- The effect of an operation on the table, with its answer. -/
def Op.Changes (order : RowOrder) : (o : Op) → o.Answer → Table → Table → Prop
  | .sql q, r, t, t' => ∃ oracle, q.exec order oracle t = (r, t')
  | .redis _, _, t, t' => t' = t
  | .config, _, t, t' => t' = t
  | .publish _, _, t, t' => t' = t
  | .entropy _, _, t, t' => t' = t

/-- A request performs an operation that its protocol allows. -/
structure View.Performs (order : RowOrder) (v : View) (id : ReqId) (o : Op) (r : o.Answer)
    (v' : View) : Prop where
  allow : ∃ claims request R, (tracked claims request R).allow (v.phase id) o
  db : o.Changes order r v.db v'.db
  ledger : v'.ledger = v.ledger.note (.performed id o r)
  phase : v'.phase = notePhase v.phase (.performed id o r)

theorem View.Sound.imp {v : View} {key : Key} {n : ℕ} {p p' : Table → Prop} (h : v.Sound key n p)
    (hp : ∀ t, p t → p' t) : v.Sound key n p' := h.imp_left (hp _)

section Views

variable {order : RowOrder} {v v' : View} {id : ReqId} {o : Op} {r : o.Answer} {key : Key} {n : ℕ}
  {p : Table → Prop}

theorem look_of_ne {L : Ledger} {id id' : ReqId} (h : id' ≠ id) (o : Op) :
    L.look id o id' = L.seen id' := by
  unfold Ledger.look
  split
  · rfl
  · exact Function.update_of_ne h ..
  · rfl

theorem look_of_touches {L : Ledger} {id : ReqId} {q : Sql} {t : Table}
    (h : q.Touches t key) : L.look id (.sql q) id = L.moment + 1 := by
  cases q with
  | countBackups tenantId status => exact h.elim
  | insertBackup | selectBackup | selectBackups | updateBackup | deleteBackup | setStatus
  | setCompleted | setFailed => exact Function.update_self ..

theorem notePhase_self (phase : ReqId → Phase) (r : o.Answer) :
    notePhase phase (.performed id o r) id = (phase id).after o r := Function.update_self ..

theorem notePhase_of_ne (phase : ReqId → Phase) (r : o.Answer) {id' : ReqId} (h : id' ≠ id) :
    notePhase phase (.performed id o r) id' = phase id' := Function.update_of_ne h ..

/-- Only statements change debts, apart from deletions, which pay them. -/
theorem owed_afterRedis (g : Phase) (c : RedisCommand) (r : Except RedisError c.Answer) :
    (g.afterRedis c r).owed = g.owed ∨ ∃ key, c = .del key ∧ (g.afterRedis c r).owed =
      g.owed.erase key := by
  cases c with
  | get key => rcases r with e | (_ | v) <;> exact .inl rfl
  | setEx key v ttl => exact .inl rfl
  | del key => exact .inr ⟨key, rfl, rfl⟩

/-- The record of deletions only grows. -/
theorem done_le_note (L : Ledger) (obs : Obs) (key : Key) : L.done key ≤ (L.note obs).done key := by
  have hdel : ∀ key' n, L.done key ≤ Function.update L.done key' (max (L.done key') n) key := by
    intro key' n
    by_cases heq : key = key'
    · rw [heq, Function.update_self]
      exact le_max_left ..
    · rw [Function.update_of_ne heq]
  cases obs with
  | performed id o r =>
      cases o with
      | redis c =>
          cases c with
          | del key' => exact hdel key' _
          | get | setEx => exact le_rfl
      | sql | config | publish | entropy => exact le_rfl
  | responded | called => exact le_rfl

theorem note_done_of_ne (L : Ledger) (r : o.Answer) (h : o ≠ .redis (.del key)) :
    (L.note (.performed id o r)).done key = L.done key := by
  cases o with
  | redis c =>
      cases c with
      | del key' =>
          refine Function.update_of_ne (fun heq => h ?_) ..
          rw [heq]
      | get | setEx => rfl
  | sql | config | publish | entropy => rfl

/-- No request has looked at the table later than now. -/
theorem note_seen_le {L : Ledger} {id' : ReqId} (h : L.seen id' ≤ L.moment) (r : o.Answer) :
    (L.note (.performed id o r)).seen id' ≤ (L.note (.performed id o r)).moment := by
  show L.look id o id' ≤ L.moment + 1
  unfold Ledger.look
  split
  · omega
  · by_cases heq : id' = id
    · rw [heq, Function.update_self]
    · rw [Function.update_of_ne heq]
      omega
  · omega

/-- No deletion is for a later statement than now. -/
theorem note_done_le {L : Ledger} (hseen : L.seen id ≤ L.moment) (hdone : L.done key ≤ L.moment)
    (r : o.Answer) : (L.note (.performed id o r)).done key ≤ (L.note (.performed id o r)).moment := by
  show _ ≤ L.moment + 1
  by_cases hdel : o = .redis (.del key)
  · subst hdel
    simp only [Ledger.note, Function.update_self]
    omega
  · rw [note_done_of_ne L r hdel]
    omega

/-- A debt stays until it is paid, and that is recorded. -/
theorem View.Owes.performs {id' : ReqId} (h : v.Owes id' key n) (hv : v.Performs order id o r v') :
    v'.Owes id' key n ∨ n < v'.ledger.done key := by
  obtain ⟨howed, hseen⟩ := h
  have hseen' : v'.ledger.seen = v.ledger.look id o := by rw [hv.ledger]; rfl
  by_cases hid : id' = id
  · subst hid
    obtain ⟨claims, request, R, hallow⟩ := hv.allow
    have hunpaid : v.ledger.look id' o = v.ledger.seen → key ∈ ((v.phase id').after o r).owed →
        v'.Owes id' key n := fun hlook howed =>
      ⟨by rw [hv.phase, notePhase_self]; exact howed, by rw [hseen', hlook]; exact hseen⟩
    cases o with
    | sql q =>
        rw [hallow.1.1] at howed
        cases howed
    | redis c =>
        rcases owed_afterRedis (v.phase id') c r with hsame | ⟨key', rfl, herase⟩
        · exact .inl (hunpaid rfl (hsame.symm ▸ howed))
        · by_cases heq : key = key'
          · subst heq
            refine .inr ?_
            rw [hv.ledger]
            simp only [Ledger.note, Function.update_self]
            omega
          · exact .inl (hunpaid rfl (herase.symm ▸ (List.mem_erase_of_ne heq).mpr howed))
    | config | entropy => exact .inl (hunpaid rfl howed)
    | publish job => exact .inl (hunpaid rfl howed)
  · refine .inl ⟨?_, ?_⟩
    · rw [hv.phase, notePhase_of_ne _ _ hid]
      exact howed
    · rw [hseen', look_of_ne hid]
      exact hseen

theorem done_le_of_performs (hv : v.Performs order id o r v') (key : Key) :
    v.ledger.done key ≤ v'.ledger.done key := by
  rw [hv.ledger]
  exact done_le_note ..

/-- An operation keeps sound what has been sound. -/
theorem View.Sound.performs (h : v.Sound key n p) (hp : About order key p)
    (hn : n ≤ v.ledger.moment) (hv : v.Performs order id o r v') : v'.Sound key n p := by
  rcases h with hnow | ⟨id', howes⟩ | hdone
  · cases o with
    | sql q =>
        obtain ⟨claims, request, R, -, hq⟩ := hv.allow
        obtain ⟨oracle, hexec⟩ := hv.db
        have hdb : v'.db = (q.exec order oracle v.db).2 := by rw [hexec]
        rcases owed_of_touches oracle (v.phase id) hq v.db with hsame | hkeys
        · exact .inl (by rw [hdb, hsame]; exact hnow)
        · by_cases htouch : q.Touches v.db key
          · have hmem := hkeys key htouch
            rw [hexec] at hmem
            refine .inr (.inl ⟨id, ?_, ?_⟩)
            · rw [hv.phase, notePhase_self]
              exact hmem
            · rw [show v'.ledger.seen = v.ledger.look id (.sql q) by rw [hv.ledger]; rfl,
                look_of_touches htouch]
              omega
          · exact .inl (hdb ▸ hp oracle q v.db htouch hnow)
    | redis c => exact .inl ((show v'.db = v.db from hv.db).symm ▸ hnow)
    | config | entropy => exact .inl ((show v'.db = v.db from hv.db).symm ▸ hnow)
    | publish job => exact .inl ((show v'.db = v.db from hv.db).symm ▸ hnow)
  · rcases howes.performs hv with howes | hdone
    · exact .inr (.inl ⟨id', howes⟩)
    · exact .inr (.inr hdone)
  · exact .inr (.inr (Nat.lt_of_lt_of_le hdone (done_le_of_performs hv key)))

end Views

/-! ### What is on record -/

/-- What a request holds is sound since the moment `n`. `was n b` stands for:
the row was in the table at some moment from `n` on. -/
def Copy.Recorded (order : RowOrder) (v : View) (was : ℕ → Backup → Prop) (n : ℕ) : Copy → Prop
  | .nothing => True
  | .hit _ _ => True
  | .row b => v.Sound (.backup b.id) n (fun t => t.find b.id = some b) ∧ was n b
  | .items tenantId status limit offset rows => v.Sound (.tenantBackups tenantId) n fun t =>
      t.page order tenantId status limit offset = rows
  | .page tenantId status limit offset rows total => v.Sound (.tenantBackups tenantId) n fun t =>
      t.page order tenantId status limit offset = rows ∧ t.count tenantId status = total

/-- An entry is sound since a moment from which on no change is known whose
author has deleted the key. -/
def CacheValue.Recorded {order : RowOrder} {limit offset : ℤ} (F : Freshness order limit offset)
    (v : View) (was : ℕ → Backup → Prop) (key : Key) (value : CacheValue) : Prop :=
  ∃ n, v.ledger.done key ≤ n ∧ n ≤ v.ledger.moment ∧ v.Sound key n (fun t => F.fresh t key value) ∧
    ∀ b, value = .backup b → key = .backup b.id ∧ was n b

section Records

variable {order : RowOrder} {v v' : View} {was was' : ℕ → Backup → Prop} {id : ReqId} {o : Op}
  {r : o.Answer} {n : ℕ} {c : Copy}

theorem Copy.Unread.recorded (h : c.Unread) : c.Recorded order v was n := by
  cases c with
  | nothing => trivial
  | hit key value => trivial
  | row | items | page => exact h.elim

/-- What a request holds stays on record, if what is sound stays so. -/
theorem Copy.Recorded.map (h : c.Recorded order v was n)
    (hsound : ∀ key p, About order key p → v.Sound key n p → v'.Sound key n p)
    (hwas : ∀ n b, was n b → was' n b) : c.Recorded order v' was' n := by
  cases c with
  | nothing => trivial
  | hit key value => trivial
  | row b => exact ⟨hsound _ _ (about_row b) h.1, hwas n b h.2⟩
  | items tenantId status limit offset rows =>
      simp only [Copy.Recorded] at h ⊢
      exact hsound _ _ (about_page tenantId (· = rows) status limit offset) h
  | page tenantId status limit offset rows total =>
      simp only [Copy.Recorded] at h ⊢
      exact hsound _ _ ((about_page tenantId (· = rows) status limit offset).and
        (about_count tenantId (· = total) status)) h

/-- So does an entry, unless its key is deleted. -/
theorem CacheValue.Recorded.map {limit offset : ℤ} {F : Freshness order limit offset} {key : Key}
    {value : CacheValue} (h : value.Recorded F v was key)
    (hdone : v'.ledger.done key = v.ledger.done key) (hmoment : v.ledger.moment ≤ v'.ledger.moment)
    (hsound : ∀ n p, n ≤ v.ledger.moment → About order key p → v.Sound key n p → v'.Sound key n p)
    (hwas : ∀ n b, was n b → was' n b) : value.Recorded F v' was' key := by
  obtain ⟨n, hn, hle, hfresh, hrow⟩ := h
  refine ⟨n, hdone ▸ hn, hle.trans hmoment, hsound n _ hle (about_fresh F key value) hfresh, ?_⟩
  intro b hb
  exact ⟨(hrow b hb).1, hwas n b (hrow b hb).2⟩

/-- What the request holds is as good as it was, when it has not looked. -/
theorem recorded_unseen (h : (v.phase id).copy.Recorded order v was (v.ledger.seen id))
    (hn : v.ledger.seen id ≤ v.ledger.moment) (hv : v.Performs order id o r v')
    (hwas : ∀ n b, was n b → was' n b) (hlook : v.ledger.look id o = v.ledger.seen) :
    (v.phase id).copy.Recorded order v' was' (v'.ledger.seen id) := by
  have hseen : v'.ledger.seen = v.ledger.seen := by rw [hv.ledger, ← hlook]; rfl
  rw [hseen]
  exact h.map (fun key p hp hsound => hsound.performs hp hn hv) hwas

/-- What the request itself holds after a statement. -/
theorem recorded_afterSql {q : Sql} {r : Except SqlError q.Answer}
    (h : (v.phase id).copy.Recorded order v was (v.ledger.seen id))
    (hn : v.ledger.seen id ≤ v.ledger.moment) (hv : v.Performs order id (.sql q) r v')
    (hwas : ∀ n b, was n b → was' n b)
    (hnow : ∀ b, v'.db.find b.id = some b → was' (v.ledger.moment + 1) b) :
    ((v.phase id).after (.sql q) r).copy.Recorded order v' was' (v'.ledger.seen id) := by
  have hseen : v'.ledger.seen = v.ledger.look id (.sql q) := by rw [hv.ledger]; rfl
  obtain ⟨claims, request, R, ⟨-, hopen⟩, hq⟩ := hv.allow
  obtain ⟨oracle, hexec⟩ := hv.db
  have hr : (q.exec order oracle v.db).1 = r := by rw [hexec]
  have hdb : (q.exec order oracle v.db).2 = v'.db := by rw [hexec]
  -- a row that the statement answers is in the table at the moment it is looked at
  have hrow : ∀ b, v.ledger.look id (.sql q) id = v.ledger.moment + 1 → b ∈ v'.db.rows →
      (Copy.row b).Recorded order v' was' (v'.ledger.seen id) := by
    intro b hlook hb
    have hfind : v'.db.find b.id = some b := Table.find_eq_some.mpr ⟨hb, rfl⟩
    rw [hseen, hlook]
    exact ⟨.inl hfind, hnow b hfind⟩
  cases q with
  | insertBackup tenantId sourcePath encryptionEnabled =>
      rcases r with e | b
      · exact Copy.Unread.recorded hopen
      · exact hrow b (Function.update_self ..) (hdb ▸ exec_insertBackup_ok order oracle hr)
  | selectBackup bid tenantId =>
      rcases r with e | (_ | b)
      · exact Copy.Unread.recorded hopen
      · exact Copy.Unread.recorded hopen
      · have hfind := (exec_selectBackup_ok _ _ _ _ hr).1
        exact hrow b (Function.update_self ..) (hdb ▸ (Table.find_eq_some.mp hfind).1)
  | selectBackups tenantId status limit offset =>
      rcases r with e | rows
      · exact Copy.Unread.recorded hopen
      · have hsame := exec_selectBackups_snd order oracle v.db tenantId status limit offset
        refine .inl ?_
        rw [← hdb, hsame]
        exact (exec_selectBackups_ok _ _ _ _ _ hr).symm
  | countBackups tenantId status =>
      obtain ⟨limit, offset, rows, hcopy⟩ := hopen
      have hitems := recorded_unseen h hn hv hwas rfl
      rcases r with e | total
      · exact hitems
      · have hsame := exec_countBackups_snd order oracle v.db tenantId status
        have htotal := exec_countBackups_ok _ _ _ _ _ hr
        have hafter : ((v.phase id).after (.sql (.countBackups tenantId status)) (.ok total)).copy =
            .page tenantId status limit offset rows total := by
          simp only [Phase.after, Phase.afterSql, hcopy, Copy.count]
        rw [hcopy] at hitems
        rw [hafter]
        rcases hitems with hpage | hlater
        · refine .inl ⟨hpage, ?_⟩
          rw [← hdb, hsame, htotal]
        · exact .inr hlater
  | updateBackup bid tenantId status sizeBytes =>
      rcases r with e | (_ | b)
      · exact Copy.Unread.recorded hopen
      · exact Copy.Unread.recorded hopen
      · exact hrow b (Function.update_self ..) (hdb ▸ exec_updateBackup_ok order oracle hr)
  | deleteBackup bid tenantId =>
      rcases r with e | rowsAffected
      · exact Copy.Unread.recorded hopen
      · simp only [Phase.after, Phase.afterSql]
        split
        · exact Copy.Unread.recorded hopen
        · trivial
  | setStatus | setCompleted | setFailed => exact hq.elim

/-- What the request itself holds after an operation. -/
theorem recorded_after (h : (v.phase id).copy.Recorded order v was (v.ledger.seen id))
    (hn : v.ledger.seen id ≤ v.ledger.moment) (hv : v.Performs order id o r v')
    (hwas : ∀ n b, was n b → was' n b)
    (hnow : ∀ b, v'.db.find b.id = some b → was' (v.ledger.moment + 1) b) :
    ((v.phase id).after o r).copy.Recorded order v' was' (v'.ledger.seen id) := by
  cases o with
  | sql q => exact recorded_afterSql h hn hv hwas hnow
  | redis command =>
      cases command with
      | get key =>
          rcases r with e | (_ | value)
          · exact recorded_unseen h hn hv hwas rfl
          · exact recorded_unseen h hn hv hwas rfl
          · trivial
      | setEx key value ttl => exact recorded_unseen h hn hv hwas rfl
      | del key => exact recorded_unseen h hn hv hwas rfl
  | config | entropy => exact recorded_unseen h hn hv hwas rfl
  | publish job => exact recorded_unseen h hn hv hwas rfl

end Records

end BackupService
