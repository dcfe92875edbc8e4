import BackupService.Provenance

/-!
What a worker may conclude from an `Ack`.

A worker forgets a job when its result has been acknowledged, so the answer
to a call should say whether the row now holds what was reported.
`update_status` looks at the number of rows its statement has affected, and
`report_result` does not.
-/

namespace BackupService

open Lib

/-- The row holds what the message stands for. -/
def Rpc.RecordedIn : Rpc → Backup → Prop
  | updateStatus msg, b => b.status = msg.status
  | reportResult result, b =>
      if result.status = "completed" then b.status = "completed" ∧ b.sizeBytes = result.sizeBytes
      else b.status = "failed"

/-- The call succeeds and its row holds what the message stands for, or it
fails and changes nothing. -/
def AckRecords (uuid : UuidParser) (s : State) (oracle : Oracle) (env : Env) (rpc : Rpc) : Prop :=
  (∃ ack id b, (s.call uuid rpc oracle env).1 = .ok ack ∧ ack.success = true ∧
    uuid.parse rpc.backupId = .ok id ∧ (s.store.db.find id).isSome ∧
      (s.call uuid rpc oracle env).2.db.find id = some b ∧ rpc.RecordedIn b) ∨
  ∃ e, (s.call uuid rpc oracle env).1 = .error e ∧ (s.call uuid rpc oracle env).2 = s.store

/-- When the database answers, the message is no result for a row that is
missing. When its answer gets lost, the statement has made no difference to
the row. -/
def Rpc.Recordable (uuid : UuidParser) (rpc : Rpc) (t : Table) (now : Timestamp) : Fault → Prop
  | .none => ∀ result id, rpc = .reportResult result → uuid.parse result.backupId = .ok id →
      (t.find id).isSome
  | .before => True
  | .after => ∀ id b, uuid.parse rpc.backupId = .ok id → t.find id = some b → rpc.Accepted →
      rpc.assignments.apply now b = b

theorem recordedIn_apply (call : Rpc) (now : Timestamp) (b : Backup) :
    call.RecordedIn (call.assignments.apply now b) := by
  cases call with
  | updateStatus msg => rfl
  | reportResult result =>
      by_cases hs : result.status = "completed"
      · simp only [Rpc.RecordedIn, Rpc.assignments, if_pos hs]
        exact ⟨rfl, rfl⟩
      · simp only [Rpc.RecordedIn, Rpc.assignments, if_neg hs]
        rfl

/-! ### Calls -/

section Calls

variable {uuid : UuidParser} {s : State} {oracle : Oracle} {env : Env} {rpc : Rpc} {id : Uuid}

/-- The database answers. -/
theorem call_answered (hid : uuid.parse rpc.backupId = .ok id) (henv : env.sql = .none) :
    s.call uuid rpc oracle env =
      (rpc.answer id ((rpc.statement id).exec env.order oracle s.store.db).1,
        { s.store with db := ((rpc.statement id).exec env.order oracle s.store.db).2 }) := by
  rw [s.call_eq uuid rpc hid]
  simp only [Op.exec, henv]

theorem call_before (hid : uuid.parse rpc.backupId = .ok id) (henv : env.sql = .before) :
    s.call uuid rpc oracle env = (.error (.internal .unavailable), s.store) := by
  rw [s.call_eq uuid rpc hid]
  simp only [Op.exec, henv, Rpc.answer_error]

/-- The answer of the database gets lost. -/
theorem call_after (hid : uuid.parse rpc.backupId = .ok id) (henv : env.sql = .after) :
    s.call uuid rpc oracle env = (.error (.internal .unavailable),
      { s.store with db := ((rpc.statement id).exec env.order oracle s.store.db).2 }) := by
  rw [s.call_eq uuid rpc hid]
  simp only [Op.exec, henv, Rpc.answer_error]

theorem ackRecords_malformed {e : String} (h : uuid.parse rpc.backupId = .error e) :
    AckRecords uuid s oracle env rpc := by
  refine .inr ⟨.invalidArgument ("invalid backup_id: " ++ e), ?_⟩
  rw [s.call_malformed uuid rpc h]
  exact ⟨rfl, rfl⟩

/-- A row that is there is written to, or the database refuses the status. -/
theorem ackRecords_found {b : Backup} (hid : uuid.parse rpc.backupId = .ok id)
    (henv : env.sql = .none) (hb : s.store.db.find id = some b) : AckRecords uuid s oracle env rpc := by
  rw [AckRecords, call_answered hid henv]
  by_cases haccepted : rpc.Accepted
  · have hfound := exec_statement_found env.order oracle haccepted hb
    have hrecorded := recordedIn_apply rpc oracle.now b
    have hrow : (s.store.db.find id).isSome := by
      rw [hb]
      rfl
    obtain ⟨message, hanswer⟩ := answer_found env.order oracle haccepted hrow
    exact .inl ⟨_, id, _, hanswer, rfl, hid, hrow, hfound, hrecorded⟩
  · obtain ⟨e, he⟩ := exec_statement_refused env.order oracle haccepted hb
    have hsame := exec_snd_of_error env.order oracle he
    refine .inr ⟨.internal e, ?_, ?_⟩
    · rw [he]
      exact rpc.answer_error id e
    · rw [hsame]

theorem ackRecords_answered (hid : uuid.parse rpc.backupId = .ok id) (henv : env.sql = .none) :
    AckRecords uuid s oracle env rpc ↔
      ∀ result, rpc = .reportResult result → (s.store.db.find id).isSome := by
  cases hfind : s.store.db.find id with
  | some b => exact iff_of_true (ackRecords_found hid henv hfind) fun _ _ => rfl
  | none =>
      have hsame := @exec_statement_missing env.order oracle s.store.db rpc id hfind
      cases rpc with
      | updateStatus msg =>
          refine iff_of_true ?_ nofun
          obtain ⟨e, he⟩ := @answer_updateStatus_missing env.order oracle s.store.db id msg hfind
          rw [AckRecords, call_answered hid henv]
          exact .inr ⟨e, he, by rw [hsame]⟩
      | reportResult result =>
          refine iff_of_false ?_ fun h => nomatch h result rfl
          rw [AckRecords, call_answered hid henv, answer_reportResult]
          rintro (⟨ack, id', b, -, -, hid', hrow, -⟩ | ⟨e, he, -⟩)
          · obtain rfl := Except.ok.inj (hid.symm.trans hid')
            rw [hfind] at hrow
            cases hrow
          · cases he

theorem ackRecords_before (hid : uuid.parse rpc.backupId = .ok id) (henv : env.sql = .before) :
    AckRecords uuid s oracle env rpc := by
  refine .inr ⟨.internal .unavailable, ?_⟩
  rw [call_before hid henv]
  exact ⟨rfl, rfl⟩

theorem ackRecords_after (hid : uuid.parse rpc.backupId = .ok id) (henv : env.sql = .after) :
    AckRecords uuid s oracle env rpc ↔ ∀ b, s.store.db.find id = some b → rpc.Accepted →
      rpc.assignments.apply oracle.now b = b := by
  rw [← exec_statement_eq_self env.order oracle, AckRecords, call_after hid henv]
  constructor
  · rintro (⟨ack, -, -, hok, -⟩ | ⟨e, -, hstore⟩)
    · cases hok
    · exact congrArg Store.db hstore
  · intro hsame
    refine .inr ⟨_, rfl, ?_⟩
    rw [hsame]

theorem ackRecords_iff : AckRecords uuid s oracle env rpc ↔
    rpc.Recordable uuid s.store.db oracle.now env.sql := by
  cases hid : uuid.parse rpc.backupId with
  | error e =>
      refine iff_of_true (ackRecords_malformed hid) ?_
      cases env.sql with
      | none =>
          rintro result id rfl hid'
          cases hid.symm.trans hid'
      | before => trivial
      | after =>
          intro id b hid'
          cases hid.symm.trans hid'
  | ok id =>
      cases henv : env.sql with
      | none =>
          rw [ackRecords_answered hid henv]
          constructor
          · rintro h result id' rfl hid'
            obtain rfl := Except.ok.inj (hid.symm.trans hid')
            exact h result rfl
          · rintro h result rfl
            exact h result id rfl hid
      | before => exact iff_of_true (ackRecords_before hid henv) trivial
      | after =>
          rw [ackRecords_after hid henv]
          constructor
          · intro h id' b hid'
            obtain rfl := Except.ok.inj (hid.symm.trans hid')
            exact h b
          · exact fun h b => h id b hid

/-- A missing row is answered in one way by the two calls if the database
fails, and only then. -/
theorem missing_alike {update : StatusUpdate} {result : ProcessingResult}
    (hupdate : uuid.parse update.backupId = .ok id) (hresult : uuid.parse result.backupId = .ok id)
    (hnone : s.store.db.find id = none) :
    (s.call uuid (.updateStatus update) oracle env).1 =
        (s.call uuid (.reportResult result) oracle env).1 ↔ env.sql ≠ .none := by
  cases henv : env.sql with
  | none =>
      refine iff_of_false ?_ fun h => h rfl
      obtain ⟨e, he⟩ := @answer_updateStatus_missing env.order oracle s.store.db id update hnone
      rw [@call_answered _ _ _ _ (.updateStatus update) _ hupdate henv,
        @call_answered _ _ _ _ (.reportResult result) _ hresult henv, answer_reportResult, he]
      exact nofun
  | before =>
      rw [@call_before _ _ _ _ (.updateStatus update) _ hupdate henv,
        @call_before _ _ _ _ (.reportResult result) _ hresult henv]
      exact iff_of_true rfl nofun
  | after =>
      rw [@call_after _ _ _ _ (.updateStatus update) _ hupdate henv,
        @call_after _ _ _ _ (.reportResult result) _ hresult henv]
      exact iff_of_true rfl nofun

end Calls

/-- **When an `Ack` means that the result is recorded.** Either call
succeeds with its row as the message says, or fails without effect, as long
as the message is no result for a row that is missing and no answer of the
database gets lost. The two treat a missing row alike only when the
database fails. -/
theorem ack_recorded_iff (uuid : UuidParser) (s : State) (oracle : Oracle) (env : Env) :
    (∀ rpc, AckRecords uuid s oracle env rpc ↔
      rpc.Recordable uuid s.store.db oracle.now env.sql) ∧
    ∀ update result id, uuid.parse update.backupId = .ok id → uuid.parse result.backupId = .ok id →
      s.store.db.find id = none →
      ((s.call uuid (.updateStatus update) oracle env).1 =
        (s.call uuid (.reportResult result) oracle env).1 ↔ env.sql ≠ .none) :=
  ⟨fun _ => ackRecords_iff, fun _ _ _ => missing_alike⟩

/-! ### A result for a row that is missing -/

section Missing

/-- A replica over an empty table. -/
def emptied : State := .initial .empty fun _ => ⟨⟨.connected, true⟩, .default⟩

/-- The result of a job whose backup has been deleted. -/
def lateResult : ProcessingResult := ⟨Uuid.toString ⟨7⟩, "completed", 1048576, ⟨[]⟩, false, ""⟩

def lateUpdate : StatusUpdate := ⟨Uuid.toString ⟨7⟩, "running"⟩

/-- The database cannot be reached. -/
def unreachable : Env := { sql := .before }

theorem ack_recorded_iff_late :
    AckRecords .hyphenated emptied ⟨⟨0⟩, 1⟩ {} (.updateStatus lateUpdate) ∧
    (emptied.call .hyphenated (.updateStatus lateUpdate) ⟨⟨0⟩, 1⟩ unreachable).1 =
      (emptied.call .hyphenated (.reportResult lateResult) ⟨⟨0⟩, 1⟩ unreachable).1 :=
  ⟨((ack_recorded_iff .hyphenated emptied ⟨⟨0⟩, 1⟩ {}).1 (.updateStatus lateUpdate)).mpr nofun,
    ((ack_recorded_iff .hyphenated emptied ⟨⟨0⟩, 1⟩ unreachable).2 lateUpdate lateResult ⟨7⟩
      (UuidParser.parse_toString ..) (UuidParser.parse_toString ..) rfl).mpr nofun⟩

/-- The result is acknowledged although there is no row, and the status is
not. -/
theorem not_ack_recorded :
    ¬ (∀ (uuid : UuidParser) (s : State) (oracle : Oracle) (env : Env) (rpc : Rpc),
      AckRecords uuid s oracle env rpc) ∧
    ¬ ∀ (uuid : UuidParser) (s : State) (oracle : Oracle) (env : Env) (update : StatusUpdate)
      (result : ProcessingResult) (id : Uuid), uuid.parse update.backupId = .ok id →
      uuid.parse result.backupId = .ok id → s.store.db.find id = none →
      (s.call uuid (.updateStatus update) oracle env).1 =
        (s.call uuid (.reportResult result) oracle env).1 := by
  have hparse : UuidParser.hyphenated.parse (Uuid.toString ⟨7⟩) = .ok ⟨7⟩ :=
    UuidParser.parse_toString ..
  constructor
  · intro h
    have hrecords := h .hyphenated emptied ⟨⟨0⟩, 1⟩ {} (.reportResult lateResult)
    have hrow := ackRecords_iff.mp hrecords lateResult ⟨7⟩ rfl hparse
    cases hrow
  · intro h
    have hsame := h .hyphenated emptied ⟨⟨0⟩, 1⟩ {} lateUpdate lateResult ⟨7⟩ hparse hparse rfl
    exact (missing_alike hparse hparse rfl).mp hsame rfl

end Missing

end BackupService
