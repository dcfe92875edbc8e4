import BackupService.Lib.LastWrite
import BackupService.Writes

/-!
When a write is stamped, and when it happens.

`now()` is the moment at which a transaction begins, and the update of the
row comes later. Here the two are events of their own: a statement begins,
and draws its values, at one instant of the clock, and is executed at any
later one, with whatever other parties do in between.

So the `updated_at` of a version says when its writer has begun, and the
versions of a row are in the order of these moments exactly if the writers
were (`updatedAt_follows_begins`). Nothing in the statements makes them wait
for each other before they begin.
-/

namespace BackupService

open Lib

/-! ### Parties at the database -/

/-- What brings a party to the database: a request of a user, or a call of a
worker. -/
inductive Task
  | request (state : AppState) (claims : Claims) (req : Request)
  | call (rpc : Rpc)

/-- The handler; what it answers is of no interest here. -/
def Task.prog (uuid : UuidParser) : Task → Action Unit
  | request state claims req => handle state claims req >>= fun _ => pure ()
  | call rpc => rpc.handle uuid >>= fun _ => pure ()

/-- A party: what is left of its handler, and, from the moment when the
transaction of the next statement has begun, the values it has drawn. -/
structure Client where
  prog : Action Unit
  began : Option Oracle

structure Transactions where
  store : Store
  clock : Timestamp
  clients : ℕ → Option Client

inductive TransactionEvent
  | arrive (n : ℕ) (task : Task)
  | begins (n : ℕ) (newId : Uuid)
  | perform (n : ℕ) (env : Env) (config : AppConfig)
  | leave (n : ℕ)
  | tick (clock : Timestamp)

/-- A committed write: its row, the moment when its transaction has begun,
and the version of the row it leaves behind, unless it deletes it. -/
structure Commit where
  id : Uuid
  began : Timestamp
  version : Option Backup

def Op.isStatement : Op → Bool
  | sql _ => true
  | _ => false

/-- The row an operation has written. -/
def Op.committed (env : Env) (oracle : Oracle) (t : Table) : Op → Option Uuid
  | sql q => env.committed oracle t q
  | _ => none

namespace Transactions

def setClient (s : Transactions) (n : ℕ) (c : Option Client) : Transactions :=
  { s with clients := Function.update s.clients n c }

@[simp] theorem setClient_store (s : Transactions) (n : ℕ) (c : Option Client) :
    (s.setClient n c).store = s.store := rfl

@[simp] theorem setClient_clock (s : Transactions) (n : ℕ) (c : Option Client) :
    (s.setClient n c).clock = s.clock := rfl

@[simp] theorem setClient_clients_self (s : Transactions) (n : ℕ) (c : Option Client) :
    (s.setClient n c).clients n = c := Function.update_self ..

theorem setClient_clients_of_ne (s : Transactions) {n m : ℕ} (c : Option Client) (h : m ≠ n) :
    (s.setClient n c).clients m = s.clients m := Function.update_of_ne h ..

def arrive (uuid : UuidParser) (s : Transactions) (n : ℕ) (task : Task) : Transactions :=
  match s.clients n with
  | some _ => s
  | none => s.setClient n (some ⟨task.prog uuid, none⟩)

/-- The transaction of the next statement begins: `now()` is settled. -/
def begins (s : Transactions) (n : ℕ) (newId : Uuid) : Transactions :=
  match s.clients n with
  | some ⟨.op (.sql q) k, none⟩ => s.setClient n (some ⟨.op (.sql q) k, some ⟨newId, s.clock⟩⟩)
  | _ => s

/-- An operation is executed, and the transaction is over. -/
def execute (s : Transactions) (n : ℕ) (env : Env) (config : AppConfig) (oracle : Oracle) (o : Op)
    (k : o.Answer → Action Unit) : Transactions × List Commit :=
  let (answer, store) := o.exec env oracle config s.clock s.store
  ({ s with store }.setClient n (some ⟨k answer, none⟩),
    (o.committed env oracle s.store.db).toList.map fun id => ⟨id, oracle.now, store.db.find id⟩)

/-- The next operation of a party. A statement needs a transaction, whose
values it has; other operations have no use for any. -/
def perform (s : Transactions) (n : ℕ) (env : Env) (config : AppConfig) :
    Transactions × List Commit :=
  match s.clients n with
  | some ⟨.op o k, began⟩ =>
      if o.isStatement && began.isNone then (s, [])
      else s.execute n env config (began.getD ⟨⟨0⟩, s.clock⟩) o k
  | _ => (s, [])

def initial (db : Table) (clock : Timestamp) : Transactions where
  store := ⟨db, .empty, []⟩
  clock := clock
  clients := fun _ => none

end Transactions

/-- The parties and their transactions as a machine, which shows what is
committed. -/
def transactions (uuid : UuidParser) : Machine Transactions TransactionEvent Commit where
  step s
    | .arrive n task => (s.arrive uuid n task, [])
    | .begins n newId => (s.begins n newId, [])
    | .perform n env config => s.perform n env config
    | .leave n => (s.setClient n none, [])
    | .tick clock => ({ s with clock := max s.clock clock }, [])

/-! ### Transactions on a row -/

/-- The row a statement is about. -/
def Sql.target (oracle : Oracle) : Sql → Option Uuid
  | insertBackup _ _ _ => some oracle.newId
  | selectBackup _ _ => none
  | selectBackups _ _ _ _ => none
  | countBackups _ _ => none
  | updateBackup id _ _ _ => some id
  | deleteBackup id _ => some id
  | setStatus id _ => some id
  | setCompleted id _ => some id
  | setFailed id => some id

theorem Sql.Writes.target {oracle : Oracle} {id : Uuid} {q : Sql} {row row' : Option Backup}
    (h : q.Writes oracle id row row') : q.target oracle = some id := by
  cases h with
  | inserted hid => exact congrArg some hid
  | updated => rfl
  | deleted => rfl
  | statusSet => rfl
  | completed => rfl
  | failed => rfl

/-- Every version is stamped with the `now()` of its writer. -/
theorem Sql.Writes.updatedAt {oracle : Oracle} {id : Uuid} {q : Sql} {row row' : Option Backup}
    (h : q.Writes oracle id row row') : ∀ r, row' = some r → r.updatedAt = oracle.now := by
  rintro r rfl
  generalize hrow : some r = row' at h
  cases h with
  | deleted => cases hrow
  | inserted => cases hrow; rfl
  | updated => cases hrow; rfl
  | statusSet => cases hrow; rfl
  | completed => cases hrow; rfl
  | failed => cases hrow; rfl

/-- A transaction of party `n` that is about the row is under way, since the
instant `t`. -/
def Transactions.InProgress (s : Transactions) (id : Uuid) (n : ℕ) (t : Timestamp) : Prop :=
  ∃ q k oracle, s.clients n = some ⟨.op (.sql q) k, some oracle⟩ ∧ q.target oracle = some id ∧
    oracle.now = t

/-- A transaction about the row begins while another one is under way. -/
def Transactions.Overlaps (s : Transactions) (id : Uuid) : TransactionEvent → Prop
  | .begins n newId => (∃ t, (s.begins n newId).InProgress id n t) ∧
      ∃ m, m ≠ n ∧ ∃ t, s.InProgress id m t
  | _ => False

section InProgress

variable {s : Transactions} {n m : ℕ} {c : Option Client} {id : Uuid} {t : Timestamp}

/-- Whoever puts a party without a transaction in a place starts none. -/
theorem inProgress_setClient (hc : ∀ c', c = some c' → c'.began = none)
    (h : (s.setClient n c).InProgress id m t) : m ≠ n ∧ s.InProgress id m t := by
  obtain ⟨q, k, oracle, hclient, htarget, hnow⟩ := h
  have hne : m ≠ n := by
    rintro rfl
    rw [Transactions.setClient_clients_self] at hclient
    cases hc _ hclient
  rw [Transactions.setClient_clients_of_ne _ _ hne] at hclient
  exact ⟨hne, q, k, oracle, hclient, htarget, hnow⟩

/-- A transaction is stamped with the instant at which it begins. -/
theorem inProgress_begins {newId : Uuid} (h : (s.begins n newId).InProgress id m t) :
    s.InProgress id m t ∨ m = n ∧ t = s.clock := by
  unfold Transactions.begins at h
  split at h
  · obtain ⟨q, k, oracle, hclient, htarget, rfl⟩ := h
    by_cases hm : m = n
    · subst hm
      rw [Transactions.setClient_clients_self] at hclient
      cases hclient
      exact .inr ⟨rfl, rfl⟩
    · rw [Transactions.setClient_clients_of_ne _ _ hm] at hclient
      exact .inl ⟨q, k, oracle, hclient, htarget, rfl⟩
  · exact .inl h

@[simp] theorem begins_store (newId : Uuid) : (s.begins n newId).store = s.store := by
  unfold Transactions.begins
  split <;> rfl

@[simp] theorem begins_clock (newId : Uuid) : (s.begins n newId).clock = s.clock := by
  unfold Transactions.begins
  split <;> rfl

end InProgress

/-! ### What an event does to a row -/

section Steps

variable {uuid : UuidParser} {s : Transactions} {e : TransactionEvent}

/-- No row changes, and no transaction begins but in the event `e`. -/
structure Quiet (e : TransactionEvent) (s s' : Transactions) : Prop where
  rows : ∀ id, s'.store.db.find id = s.store.db.find id
  clock : s.clock ≤ s'.clock
  inProgress : ∀ id m t, s'.InProgress id m t →
    s.InProgress id m t ∨ t = s.clock ∧ ∃ newId, e = .begins m newId

/-- The transaction of the write commits: it has been under way, and is no
longer. -/
structure Commits (c : Commit) (s s' : Transactions) : Prop where
  version : s'.store.db.find c.id = c.version
  others : ∀ id ≠ c.id, s'.store.db.find id = s.store.db.find id
  stamped : ∀ r, c.version = some r → r.updatedAt = c.began
  clock : s'.clock = s.clock
  ended : ∃ n, s.InProgress c.id n c.began ∧
    ∀ id m t, s'.InProgress id m t → m ≠ n ∧ s.InProgress id m t

/-- An operation that is no statement leaves the table alone. -/
theorem exec_db {o : Op} (h : o.isStatement = false) (env : Env) (oracle : Oracle)
    (config : AppConfig) (clock : ℕ) (st : Store) :
    (o.exec env oracle config clock st).2.db = st.db := by
  cases o with
  | sql q => cases h
  | redis c =>
      simp only [Op.exec]
      split <;> rfl
  | config | entropy => rfl
  | publish job =>
      simp only [Op.exec]
      split <;> rfl

section Execute

variable (s) (n : ℕ) (env : Env) (config : AppConfig) (oracle : Oracle)

/-- Afterwards the party has no transaction, whatever it has executed. -/
theorem inProgress_execute {o : Op} {k : o.Answer → Action Unit} {id : Uuid} {m : ℕ} {t : Timestamp}
    (h : (s.execute n env config oracle o k).1.InProgress id m t) : m ≠ n ∧ s.InProgress id m t :=
  inProgress_setClient (fun _ hc => Option.some.inj hc ▸ rfl) h

theorem execute_other {o : Op} (k : o.Answer → Action Unit) (ho : o.isStatement = false) :
    (s.execute n env config oracle o k).2 = [] ∧
      Quiet (.perform n env config) s (s.execute n env config oracle o k).1 := by
  refine ⟨?_, fun id => ?_, le_rfl, fun _ _ _ hin => .inl (inProgress_execute _ _ _ _ _ hin).2⟩
  · cases o with
    | sql q => cases ho
    | redis | config | publish | entropy => rfl
  · exact congrArg (Table.find · id) (exec_db ho ..)

theorem execute_statement {q : Sql} {k : (Op.sql q).Answer → Action Unit}
    (hclient : s.clients n = some ⟨.op (.sql q) k, some oracle⟩) :
    (s.execute n env config oracle (.sql q) k).2 = [] ∧
        Quiet (.perform n env config) s (s.execute n env config oracle (.sql q) k).1 ∨
      ∃ c, (s.execute n env config oracle (.sql q) k).2 = [c] ∧
        Commits c s (s.execute n env config oracle (.sql q) k).1 := by
  have hrow := fun id => committed_cases env oracle config s.clock s.store id q
  have hshown : (s.execute n env config oracle (.sql q) k).2 =
      (env.committed oracle s.store.db q).toList.map fun id =>
        ⟨id, oracle.now, (s.execute n env config oracle (.sql q) k).1.store.db.find id⟩ := rfl
  cases hcommitted : env.committed oracle s.store.db q with
  | none =>
      refine .inl ⟨by rw [hshown, hcommitted]; rfl, fun id => ?_, le_rfl,
        fun _ _ _ hin => .inl (inProgress_execute _ _ _ _ _ hin).2⟩
      rcases hrow id with ⟨h, -⟩ | ⟨-, h⟩
      · rw [hcommitted] at h
        cases h
      · exact h
  | some id =>
      obtain ⟨-, hwrites⟩ | ⟨h, -⟩ := hrow id
      · refine .inr ⟨_, by rw [hshown, hcommitted]; rfl, rfl, fun id' hne => ?_, hwrites.updatedAt, rfl,
          n, ⟨q, k, oracle, hclient, hwrites.target, rfl⟩,
          fun _ _ _ hin => inProgress_execute _ _ _ _ _ hin⟩
        rcases hrow id' with ⟨h, -⟩ | ⟨-, h⟩
        · rw [hcommitted] at h
          exact absurd (Option.some.inj h).symm hne
        · exact h
      · exact absurd hcommitted h

theorem perform_cases :
    (s.perform n env config).2 = [] ∧ Quiet (.perform n env config) s (s.perform n env config).1 ∨
      ∃ c, (s.perform n env config).2 = [c] ∧ Commits c s (s.perform n env config).1 := by
  have hsame : Quiet (.perform n env config) s s :=
    ⟨fun _ => rfl, le_rfl, fun _ _ _ hin => .inl hin⟩
  unfold Transactions.perform
  split
  · next o k began hclient =>
      cases ho : o.isStatement with
      | false =>
          rw [Bool.false_and, if_neg Bool.false_ne_true]
          exact .inl (execute_other s n env config _ k ho)
      | true =>
          cases o with
          | redis | config | publish | entropy => cases ho
          | sql q =>
              cases began with
              | none => exact .inl ⟨rfl, hsame⟩
              | some oracle => exact execute_statement s n env config oracle hclient
  · exact .inl ⟨rfl, hsame⟩

end Execute

variable (uuid s e) in
/-- **What an event does**: nothing to any row, or it commits one write. -/
theorem step_cases :
    ((transactions uuid).step s e).2 = [] ∧ Quiet e s ((transactions uuid).step s e).1 ∨
      ∃ c, ((transactions uuid).step s e).2 = [c] ∧ Commits c s ((transactions uuid).step s e).1 := by
  cases e with
  | arrive n task =>
      refine .inl ⟨rfl, ?_⟩
      show Quiet _ s (s.arrive uuid n task)
      unfold Transactions.arrive
      split
      · exact ⟨fun _ => rfl, le_rfl, fun _ _ _ hin => .inl hin⟩
      · exact ⟨fun _ => rfl, le_rfl, fun _ _ _ hin =>
          .inl (inProgress_setClient (fun _ hc => Option.some.inj hc ▸ rfl) hin).2⟩
  | begins n newId =>
      refine .inl ⟨rfl, fun id => ?_, ?_, fun id m t hin => ?_⟩
      · exact congrArg (fun st => st.db.find id) (begins_store newId)
      · exact (begins_clock newId).ge
      · rcases inProgress_begins hin with hold | ⟨rfl, rfl⟩
        · exact .inl hold
        · exact .inr ⟨rfl, newId, rfl⟩
  | perform n env config => exact perform_cases s n env config
  | leave n =>
      refine .inl ⟨rfl, fun _ => rfl, le_rfl, fun _ _ _ hin => .inl ?_⟩
      exact (inProgress_setClient (c := none) (fun _ hc => nomatch hc) hin).2
  | tick clock => exact .inl ⟨rfl, fun _ => rfl, le_max_left _ _, fun _ _ _ hin => .inl hin⟩

end Steps

/-! ### The versions of a row -/

/-- The committed writes to the row, in order. -/
def commitsTo (id : Uuid) (cs : List Commit) : List Commit := cs.filter fun c => c.id = id

/-- The versions of the row, in order. -/
def versions (id : Uuid) (cs : List Commit) : List Backup := (commitsTo id cs).filterMap Commit.version

/-- The writes that have left a version behind. -/
def writers (id : Uuid) (cs : List Commit) : List Commit :=
  (commitsTo id cs).filter fun c => c.version.isSome

theorem commitsTo_append (id : Uuid) (cs cs' : List Commit) :
    commitsTo id (cs ++ cs') = commitsTo id cs ++ commitsTo id cs' := List.filter_append ..

theorem commitsTo_self (c : Commit) : commitsTo c.id [c] = [c] :=
  List.filter_cons_of_pos (decide_eq_true rfl)

theorem commitsTo_of_ne {id : Uuid} {c : Commit} (h : c.id ≠ id) : commitsTo id [c] = [] :=
  List.filter_cons_of_neg (by simpa using h)

/-- The stamps of the versions are the moments when their writers began. -/
theorem map_updatedAt {cs : List Commit}
    (h : ∀ c ∈ cs, ∀ r, c.version = some r → r.updatedAt = c.began) :
    (cs.filterMap Commit.version).map Backup.updatedAt =
      (cs.filter fun c => c.version.isSome).map Commit.began := by
  induction cs with
  | nil => rfl
  | cons c cs ih =>
      obtain ⟨hc, hcs⟩ := List.forall_mem_cons.mp h
      cases hversion : c.version with
      | none =>
          rw [List.filterMap_cons_none hversion, List.filter_cons_of_neg (by simp [hversion])]
          exact ih hcs
      | some r =>
          rw [List.filterMap_cons_some hversion, List.filter_cons_of_pos (by simp [hversion]),
            List.map_cons, List.map_cons, hc r hversion, ih hcs]

section Runs

variable {uuid : UuidParser} {s : Transactions} {es : List TransactionEvent} {id : Uuid}

theorem trace_stamped : ∀ c ∈ (transactions uuid).trace s es,
    ∀ r, c.version = some r → r.updatedAt = c.began := by
  intro c hc
  obtain ⟨pre, e, -, -, hshown⟩ := Machine.exists_of_mem_trace _ hc
  rcases step_cases uuid ((transactions uuid).run s pre) e with ⟨hnil, -⟩ | ⟨c', hone, hcommits⟩
  · rw [hnil] at hshown
    cases hshown
  · rw [hone] at hshown
    rw [List.mem_singleton.mp hshown]
    exact hcommits.stamped

/-- The row is what the last committed write to it has left behind. -/
theorem find_run (es : List TransactionEvent) : ((transactions uuid).run s es).store.db.find id =
    lastWrite (fun c => some c.version) (commitsTo id ((transactions uuid).trace s es))
      (s.store.db.find id) := by
  induction es using Machine.run_induction with
  | hnil => rfl
  | hsnoc es e ih =>
      rw [Machine.run_concat, Machine.trace_concat, commitsTo_append]
      rcases step_cases uuid ((transactions uuid).run s es) e with ⟨hnil, hquiet⟩ | ⟨c, hone, hcommits⟩
      · rw [hnil, hquiet.rows, ih]
        exact congrArg (lastWrite _ · _) (List.append_nil _).symm
      · rw [hone]
        by_cases hid : id = c.id
        · rw [hid, commitsTo_self, lastWrite_concat, hcommits.version]
          rfl
        · rw [commitsTo_of_ne (Ne.symm hid), List.append_nil, hcommits.others id hid, ih]

/-! ### Transactions one after the other -/

/-- What is known of the committed writes `cs` to the row, as long as no
transaction about it begins while another one is under way. -/
structure InTurn (id : Uuid) (s : Transactions) (cs : List Commit) : Prop where
  sorted : (commitsTo id cs).Pairwise fun c c' => c.began ≤ c'.began
  past : ∀ c ∈ commitsTo id cs, c.began ≤ s.clock
  alone : ∀ n m t t', s.InProgress id n t → s.InProgress id m t' → n = m
  after : ∀ n t, s.InProgress id n t → t ≤ s.clock ∧ ∀ c ∈ commitsTo id cs, c.began ≤ t

theorem inTurn_initial (id : Uuid) (db : Table) (clock : Timestamp) :
    InTurn id (.initial db clock) [] where
  sorted := List.Pairwise.nil
  past _ hc := nomatch hc
  alone := by
    rintro n m t t' ⟨_, _, _, hclient, -, -⟩
    cases hclient
  after := by
    rintro n t ⟨_, _, _, hclient, -, -⟩
    cases hclient

theorem InTurn.quiet {cs : List Commit} (h : InTurn id s cs) {e : TransactionEvent}
    (he : ¬ s.Overlaps id e) (hquiet : Quiet e s ((transactions uuid).step s e).1) :
    InTurn id ((transactions uuid).step s e).1 cs where
  sorted := h.sorted
  past c hc := (h.past c hc).trans hquiet.clock
  alone n m t t' hn hm := by
    rcases hquiet.inProgress id n t hn with hnOld | ⟨-, newId, rfl⟩
    · rcases hquiet.inProgress id m t' hm with hmOld | ⟨-, newId, rfl⟩
      · exact h.alone n m t t' hnOld hmOld
      · -- A transaction begins while the other one is under way.
        by_contra hne
        exact he ⟨⟨t', hm⟩, n, hne, t, hnOld⟩
    · rcases hquiet.inProgress id m t' hm with hmOld | ⟨-, newId', heq⟩
      · by_contra hne
        exact he ⟨⟨t, hn⟩, m, Ne.symm hne, t', hmOld⟩
      · exact (TransactionEvent.begins.inj heq).1
  after n t hn := by
    rcases hquiet.inProgress id n t hn with hold | ⟨rfl, -⟩
    · exact ⟨(h.after n t hold).1.trans hquiet.clock, (h.after n t hold).2⟩
    · -- It begins now, and whatever has committed began earlier.
      exact ⟨hquiet.clock, h.past⟩

/-- The write that commits began after all the others had committed. -/
theorem InTurn.commits {cs : List Commit} (h : InTurn id s cs) {c : Commit} {s' : Transactions}
    (hcommits : Commits c s s') : InTurn id s' (cs ++ [c]) := by
  obtain ⟨n, hin, hended⟩ := hcommits.ended
  by_cases hid : c.id = id
  · subst hid
    obtain ⟨hle, hlast⟩ := h.after n _ hin
    -- It was the only one about the row, so none is left.
    have hnone : ∀ m t, ¬ s'.InProgress c.id m t := fun m t hm =>
      (hended _ m t hm).1 (h.alone m n t _ (hended _ m t hm).2 hin)
    refine ⟨?_, fun c' hc' => ?_, fun m _ t _ hm => (hnone m t hm).elim,
      fun m t hm => (hnone m t hm).elim⟩
    · rw [commitsTo_append, commitsTo_self]
      refine List.pairwise_append.mpr ⟨h.sorted, List.pairwise_singleton _ _, fun c' hc' c'' hc'' => ?_⟩
      rw [List.mem_singleton.mp hc'']
      exact hlast c' hc'
    · rw [commitsTo_append, commitsTo_self] at hc'
      rw [hcommits.clock]
      rcases List.mem_append.mp hc' with hold | hnew
      · exact h.past c' hold
      · rw [List.mem_singleton.mp hnew]
        exact hle
  · have hsame : commitsTo id (cs ++ [c]) = commitsTo id cs := by
      rw [commitsTo_append, commitsTo_of_ne hid, List.append_nil]
    refine ⟨hsame ▸ h.sorted, ?_, fun m m' t t' hm hm' => ?_, fun m t hm => ?_⟩
    · rw [hsame, hcommits.clock]
      exact h.past
    · exact h.alone m m' t t' (hended _ m t hm).2 (hended _ m' t' hm').2
    · rw [hsame, hcommits.clock]
      exact h.after m t (hended _ m t hm).2

theorem InTurn.step {cs : List Commit} (h : InTurn id s cs) {e : TransactionEvent}
    (he : ¬ s.Overlaps id e) :
    InTurn id ((transactions uuid).step s e).1 (cs ++ ((transactions uuid).step s e).2) := by
  rcases step_cases uuid s e with ⟨hnil, hquiet⟩ | ⟨c, hone, hcommits⟩
  · rw [hnil, List.append_nil]
    exact h.quiet he hquiet
  · rw [hone]
    exact h.commits hcommits

/-- Nobody begins before the clock of the start. -/
theorem began_after_start (uuid : UuidParser) (db : Table) (clock : Timestamp)
    (es : List TransactionEvent) :
    clock ≤ ((transactions uuid).run (.initial db clock) es).clock ∧
      (∀ id n t, ((transactions uuid).run (.initial db clock) es).InProgress id n t → clock ≤ t) ∧
      ∀ c ∈ (transactions uuid).trace (.initial db clock) es, clock ≤ c.began := by
  induction es using Machine.run_induction with
  | hnil =>
      refine ⟨le_rfl, ?_, fun _ hc => nomatch hc⟩
      rintro id n t ⟨_, _, _, hclient, -, -⟩
      cases hclient
  | hsnoc es e ih =>
      obtain ⟨hclock, hin, htrace⟩ := ih
      rw [Machine.run_concat, Machine.trace_concat]
      rcases step_cases uuid ((transactions uuid).run (.initial db clock) es) e with
        ⟨hnil, hquiet⟩ | ⟨c, hone, hcommits⟩
      · rw [hnil, List.append_nil]
        refine ⟨hclock.trans hquiet.clock, fun id n t hn => ?_, htrace⟩
        rcases hquiet.inProgress id n t hn with hold | ⟨rfl, -⟩
        · exact hin id n t hold
        · exact hclock
      · obtain ⟨n, hn, hended⟩ := hcommits.ended
        rw [hone, hcommits.clock]
        refine ⟨hclock, fun id m t hm => hin id m t (hended id m t hm).2, fun c' hc' => ?_⟩
        rcases List.mem_append.mp hc' with hold | hnew
        · exact htrace c' hold
        · rw [List.mem_singleton.mp hnew]
          exact hin _ n _ hn

end Runs

/-- What is committed from a given table and a given instant on. -/
def commitLog (uuid : UuidParser) (db : Table) (clock : Timestamp) (es : List TransactionEvent) :
    List Commit := (transactions uuid).trace (.initial db clock) es

/-- **When `updated_at` does not go back.** The row is what the last
committed write has left behind, and every version is stamped with the
moment when its writer began. So the stamps are in order exactly if the
writers have committed in the order in which they began, and they are if no
transaction about the row begins while another one is under way. None of
them is earlier than the stamp of the row before. -/
theorem updatedAt_follows_begins (uuid : UuidParser) (db : Table) (clock : Timestamp)
    (es : List TransactionEvent) (id : Uuid) :
    ((transactions uuid).run (.initial db clock) es).store.db.find id =
      lastWrite (fun c => some c.version) (commitsTo id (commitLog uuid db clock es)) (db.find id) ∧
    (versions id (commitLog uuid db clock es)).map Backup.updatedAt =
      (writers id (commitLog uuid db clock es)).map Commit.began ∧
    ((versions id (commitLog uuid db clock es)).Pairwise (fun r r' => r.updatedAt ≤ r'.updatedAt) ↔
      (writers id (commitLog uuid db clock es)).Pairwise fun c c' => c.began ≤ c'.began) ∧
    ((transactions uuid).Along (fun s e => ¬ s.Overlaps id e) (.initial db clock) es →
      (versions id (commitLog uuid db clock es)).Pairwise fun r r' => r.updatedAt ≤ r'.updatedAt) ∧
    ∀ r, db.find id = some r → r.updatedAt ≤ clock →
      ∀ r' ∈ versions id (commitLog uuid db clock es), r.updatedAt ≤ r'.updatedAt := by
  have hstamps : (versions id (commitLog uuid db clock es)).map Backup.updatedAt =
      (writers id (commitLog uuid db clock es)).map Commit.began :=
    map_updatedAt fun c hc => trace_stamped c (List.mem_of_mem_filter hc)
  have hiff : (versions id (commitLog uuid db clock es)).Pairwise
        (fun r r' => r.updatedAt ≤ r'.updatedAt) ↔
      (writers id (commitLog uuid db clock es)).Pairwise fun c c' => c.began ≤ c'.began := by
    rw [← List.pairwise_map (R := (· ≤ ·)), hstamps, List.pairwise_map]
  refine ⟨find_run es, hstamps, hiff, fun halong => ?_, fun r _ hr r' hr' => ?_⟩
  · have hturn : InTurn id ((transactions uuid).run (.initial db clock) es)
        ([] ++ (transactions uuid).trace (.initial db clock) es) :=
      halong.trace_preserves (fun s cs e h he => h.step he) (inTurn_initial id db clock)
    rw [hiff]
    exact hturn.sorted.filter _
  · -- Every writer began after the start, and the row was stamped before.
    have hmem : r'.updatedAt ∈ (writers id (commitLog uuid db clock es)).map Commit.began :=
      hstamps ▸ List.mem_map_of_mem hr'
    obtain ⟨c, hc, hbegan⟩ := List.mem_map.mp hmem
    have hlog : c ∈ commitLog uuid db clock es :=
      List.mem_of_mem_filter (List.mem_of_mem_filter hc)
    rw [← hbegan]
    exact hr.trans ((began_after_start uuid db clock es).2.2 c hlog)

section Overtaken

/-- Nobody else has a transaction that could be under way. -/
theorem not_overlaps_of_idle {s : Transactions} {id : Uuid} {n : ℕ} {newId : Uuid}
    (h : ∀ m c, m ≠ n → s.clients m = some c → c.began = none) :
    ¬ s.Overlaps id (.begins n newId) := by
  rintro ⟨-, m, hne, t, q, k, oracle, hclient, -, -⟩
  cases h m _ hne hclient

/-- The party an event is about. -/
def TransactionEvent.party : TransactionEvent → Option ℕ
  | arrive n _ => some n
  | begins n _ => some n
  | perform n _ _ => some n
  | leave n => some n
  | tick _ => none

theorem step_clients {uuid : UuidParser} (s : Transactions) {e : TransactionEvent} {m : ℕ}
    (h : e.party ≠ some m) : ((transactions uuid).step s e).1.clients m = s.clients m := by
  cases e with
  | tick clock => rfl
  | leave n => exact Transactions.setClient_clients_of_ne _ _ fun hm => h (congrArg some hm.symm)
  | arrive n task =>
      show (s.arrive uuid n task).clients m = _
      unfold Transactions.arrive
      split
      · rfl
      · exact Transactions.setClient_clients_of_ne _ _ fun hm => h (congrArg some hm.symm)
  | begins n newId =>
      show (s.begins n newId).clients m = _
      unfold Transactions.begins
      split
      · exact Transactions.setClient_clients_of_ne _ _ fun hm => h (congrArg some hm.symm)
      · rfl
  | perform n env config =>
      show (s.perform n env config).1.clients m = _
      unfold Transactions.perform
      split
      · split
        · rfl
        · exact Transactions.setClient_clients_of_ne _ _ fun hm => h (congrArg some hm.symm)
      · rfl

theorem run_clients {uuid : UuidParser} {s : Transactions} {es : List TransactionEvent} {m : ℕ}
    (h : ∀ e ∈ es, e.party ≠ some m) : ((transactions uuid).run s es).clients m = s.clients m := by
  induction es generalizing s with
  | nil => rfl
  | cons e es ih =>
      obtain ⟨he, hes⟩ := List.forall_mem_cons.mp h
      rw [Machine.run_cons, ih hes, step_clients s he]

/-- A PATCH of the row. -/
def patching : Task :=
  .request ⟨.noop, false⟩ ⟨"user", ⟨1⟩, [], 0, 0⟩ (.update ⟨7⟩ ⟨none, some 5⟩)

/-- A worker sets the status of the row. -/
def calling : Task := .call (.updateStatus ⟨Uuid.toString ⟨7⟩, "running"⟩)

def patchThenCall : List TransactionEvent :=
  [.arrive 0 patching, .begins 0 ⟨⟨0⟩⟩, .tick 1, .perform 0 {} .default,
    .arrive 1 calling, .begins 1 ⟨⟨0⟩⟩, .tick 2, .perform 1 {} .default]

/-- The PATCH has begun, and is overtaken by the call of the worker. -/
def overtaken : List TransactionEvent :=
  [.arrive 0 patching, .begins 0 ⟨⟨0⟩⟩, .tick 1, .arrive 1 calling, .begins 1 ⟨⟨0⟩⟩,
    .perform 1 {} .default, .perform 0 {} .default]

theorem updatedAt_follows_begins_patchThenCall :
    (versions ⟨7⟩ (commitLog .hyphenated oneRow 0 patchThenCall)).Pairwise fun r r' =>
      r.updatedAt ≤ r'.updatedAt := by
  obtain ⟨-, -, -, hinTurn, -⟩ := updatedAt_follows_begins .hyphenated oneRow 0 patchThenCall ⟨7⟩
  refine hinTurn ⟨not_false, not_overlaps_of_idle fun m c hm hclient => ?_, not_false, not_false,
    not_false, not_overlaps_of_idle fun m c hm hclient => ?_, not_false, not_false, trivial⟩
  · have hnone : ((transactions .hyphenated).run (.initial oneRow 0)
        (patchThenCall.take 1)).clients m = none := by
      refine run_clients ?_
      simp [patchThenCall, TransactionEvent.party, Ne.symm hm]
    exact nomatch hnone.symm.trans hclient
  · by_cases hzero : m = 0
    · -- The PATCH has committed, and its party has no transaction.
      subst hzero
      exact Option.some.inj hclient ▸ rfl
    · have hnone : ((transactions .hyphenated).run (.initial oneRow 0)
          (patchThenCall.take 5)).clients m = none := by
        refine run_clients ?_
        simp [patchThenCall, TransactionEvent.party, Ne.symm hm, Ne.symm hzero]
      exact nomatch hnone.symm.trans hclient

/-- The version of the call is stamped 1, and the one that replaces it 0. -/
theorem not_updatedAt_monotone :
    (versions ⟨7⟩ (commitLog .hyphenated oneRow 0 overtaken)).map Backup.updatedAt = [1, 0] ∧
      ¬ (versions ⟨7⟩ (commitLog .hyphenated oneRow 0 overtaken)).Pairwise fun r r' =>
        r.updatedAt ≤ r'.updatedAt := by
  have hstamps : (versions ⟨7⟩ (commitLog .hyphenated oneRow 0 overtaken)).map Backup.updatedAt =
      [1, 0] := by decide +kernel
  refine ⟨hstamps, fun hsorted => ?_⟩
  rw [← List.pairwise_map (R := (· ≤ ·)), hstamps] at hsorted
  exact absurd hsorted (by decide)

end Overtaken

end BackupService
