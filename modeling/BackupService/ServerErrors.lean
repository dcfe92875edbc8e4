import BackupService.ClientErrors

/-!
Which requests the database refuses.

With a database that can be reached, a statement fails for two reasons: a
text parameter contains U+0000, or a constraint is violated. The second does
not happen to the statements of the handlers, as long as the identifier that
the database makes up for a new row is new. So the requests that are
answered 500 are those that put a U+0000 into a text parameter
(`Request.Unstorable`): nothing on the way there looks for it.
-/

namespace BackupService

open Lib Program

/-- The request binds a text that PostgreSQL cannot hold. -/
def Request.Unstorable : Request → Prop
  | .create req => validateSourcePath req.sourcePath = .ok () ∧ storable req.sourcePath = false
  | .list params => ∃ status, params.status = some status ∧ storable status = false
  | _ => False

theorem unstorable_list {params : ListParams} :
    (Request.list params).Unstorable ↔ params.status.all storable = false := by
  rw [Request.Unstorable]
  cases params.status <;> simp

section Handlers

variable {host : Host} {s : Store × ℕ} {state : AppState} {claims : Claims} {P : Prop}

/-- The response is 500 exactly if `P` holds. -/
def Internal (P : Prop) (r : Response) (_ : Store × ℕ) : Prop := r.status = 500 ↔ P

theorem internal_after {α : Type} {p : Action α} {f : α → Action Response}
    (h : ∀ a s', Ensures host.exec (f a) s' (Internal P)) :
    Ensures host.exec (p >>= f) s (Internal P) :=
  ensures_bind.mpr (h _ _)

theorem internal_answer {r : Response} (h : r.status = 500 ↔ P) :
    Ensures host.exec (pure r : Action Response) s (Internal P) := h

theorem internal_other {r : Response} (h : r.status ≠ 500) :
    Ensures host.exec (pure r : Action Response) s (Internal False) :=
  iff_of_false h id

/-- An analysis that finishes. -/
theorem Host.spawnEntropy_finished {data : List UInt8}
    {f : Except JoinError Entropy → Action Response}
    (hjoin : ∀ i, (host.moment i).env.join = none)
    (h : ∀ s', Ensures host.exec (f (.ok (shannonEntropy data))) s' (Internal P)) :
    Ensures host.exec (spawnEntropy data >>= f) s (Internal P) := by
  have hanswer : (host.exec (.entropy data) s).1 = .ok (shannonEntropy data) := by
    simp only [Host.exec, Op.exec, hjoin s.2]
    rfl
  show Ensures host.exec (f (host.exec (.entropy data) s).1) (host.exec (.entropy data) s).2
    (Internal P)
  rw [hanswer]
  exact h _

variable (hsql : ∀ i, (host.moment i).env.sql = .none)

include hsql

/-- A statement of a reachable database is executed. -/
theorem Host.query_reachable {q : Sql} {f : Except SqlError q.Answer → Action Response}
    (h : ∀ order s', s'.1 = { s.1 with db := (q.exec order host.oracle s.1.db).2 } →
      Ensures host.exec (f (q.exec order host.oracle s.1.db).1) s' (Internal P)) :
    Ensures host.exec (query q >>= f) s (Internal P) := by
  have hexec : host.exec (.sql q) s =
      ((q.exec (host.moment s.2).env.order host.oracle s.1.db).1,
        { s.1 with db := (q.exec (host.moment s.2).env.order host.oracle s.1.db).2 }, s.2 + 1) := by
    simp only [Host.exec, Op.exec, hsql s.2]
    rfl
  show Ensures host.exec (f (host.exec (.sql q) s).1) (host.exec (.sql q) s).2 (Internal P)
  rw [hexec]
  exact h _ _ rfl

theorem internal_getAfterLookup (id : Uuid) (cached : Option Backup) :
    Ensures host.exec (getAfterLookup state claims id cached) s (Internal False) := by
  cases cached with
  | some b => exact internal_other (by simp)
  | none =>
      refine Host.query_reachable hsql fun order s' _ => ?_
      simp only [Sql.exec]
      cases s.1.db.rows.find? fun r => r.id = id && r.tenantId = claims.tenantId with
      | none => exact internal_other (by simp [notFoundResponse, AppError.intoResponse])
      | some b => exact internal_after fun _ _ => internal_other (by simp)

theorem internal_listAfterLookup (params : ListParams) (cfg : AppConfig)
    (cached : Option (List Backup × ℤ)) (hcached : cached.isSome → params.status = none) :
    Ensures host.exec (listAfterLookup state claims params cfg cached) s
      (Internal (Request.list params).Unstorable) := by
  cases cached with
  | some page =>
      refine internal_answer (iff_of_false (by simp [listResponse]) ?_)
      rw [unstorable_list, hcached rfl]
      simp
  | none =>
      refine Host.query_reachable hsql fun order s' _ => ?_
      simp only [Sql.exec]
      cases hall : params.status.all storable with
      | false => exact internal_answer (iff_of_true rfl (unstorable_list.mpr hall))
      | true =>
          have hno : ¬ (Request.list params).Unstorable := by
            rw [unstorable_list, hall]
            decide
          refine Host.query_reachable hsql fun order s' _ => ?_
          simp only [Sql.exec, hall, if_true]
          split
          · exact internal_after fun _ _ => internal_answer (iff_of_false (by simp [listResponse]) hno)
          · exact internal_answer (iff_of_false (by simp [listResponse]) hno)

variable (hfresh : s.1.db.find host.oracle.newId = none)

include hfresh

/-- **When a handler answers 500.** -/
theorem handle_internal {request : Request} (henqueue : ∀ id, request ≠ .enqueue id)
    (hjoin : ∀ id, request = .analyze id → ∀ i, (host.moment i).env.join = none) :
    Ensures host.exec (handle state claims request) s (Internal request.Unstorable) := by
  cases request with
  | create req =>
      rw [handle_create]
      cases hvalid : validateSourcePath req.sourcePath with
      | error e =>
          refine internal_answer (iff_of_false ?_ ?_)
          · rw [validateSourcePath_error hvalid]
            decide
          · rintro ⟨hok, -⟩
            rw [hvalid] at hok
            cases hok
      | ok _ =>
          refine Host.query_reachable hsql fun order s' _ => ?_
          simp only [Sql.exec]
          cases hstorable : storable req.sourcePath with
          | false =>
              exact internal_answer (iff_of_true rfl ⟨hvalid, hstorable⟩)
          | true =>
              have hinsert : ∃ t, s.1.db.insert (newBackup host.oracle claims.tenantId req.sourcePath
                  req.encryptionEnabled) = .ok t := by
                have hid : (newBackup host.oracle claims.tenantId req.sourcePath
                    req.encryptionEnabled).id ∉ s.1.db.rows.map Backup.id := by
                  show host.oracle.newId ∉ s.1.db.rows.map Backup.id
                  rw [← Table.find_isSome, hfresh]
                  simp
                unfold Table.insert
                rw [dif_neg hid, dif_pos (by simp [newBackup, statuses])]
                exact ⟨_, rfl⟩
              obtain ⟨t, ht⟩ := hinsert
              rw [if_pos rfl, ht]
              refine internal_after fun _ _ => internal_answer (iff_of_false (by simp) ?_)
              rintro ⟨-, hunstorable⟩
              rw [hstorable] at hunstorable
              cases hunstorable
  | get id =>
      rw [handle_get]
      exact internal_after fun cached s' => internal_getAfterLookup hsql id _
  | list params =>
      rw [handle_list]
      refine internal_after fun cfg s' => ?_
      split
      · rename_i huse
        refine internal_after fun cached s' => internal_listAfterLookup hsql params cfg cached ?_
        exact fun _ => (useListCache_iff.mp huse).1
      · refine internal_listAfterLookup hsql params cfg none fun h => ?_
        cases h
  | update id req =>
      rw [handle_update]
      refine Host.query_reachable hsql fun order s' _ => ?_
      -- The status comes from the enumeration or from the row: it passes the check.
      have hstatus : ∀ r ∈ s.1.db.rows, (r.id = id && r.tenantId = claims.tenantId) = true →
          (Assignments.apply ⟨req.status.map BackupStatus.toString, req.sizeBytes⟩ host.oracle.now
            r).status ∈ statuses := by
        intro r hr _
        rw [Assignments.apply]
        cases req.status with
        | none => exact s.1.db.statusCheck r hr
        | some status => exact status.toString_mem
      simp only [Sql.exec]
      rw [update_fst hstatus]
      simp only [Except.map]
      split
      · rename_i h
        cases h
      · exact internal_other (by simp [notFoundResponse, AppError.intoResponse])
      · exact internal_after fun _ _ => internal_after fun _ _ => internal_other (by simp)
  | delete id =>
      rw [handle_delete]
      refine Host.query_reachable hsql fun order s' _ => ?_
      simp only [Sql.exec]
      split
      · exact internal_other (by simp [notFoundResponse, AppError.intoResponse])
      · exact internal_after fun _ _ => internal_after fun _ _ => internal_other (by simp)
  | analyze id =>
      rw [handle_analyze]
      refine Host.query_reachable hsql fun order s' _ => ?_
      simp only [Sql.exec]
      cases s.1.db.rows.find? fun r => r.id = id && r.tenantId = claims.tenantId with
      | none => exact internal_other (by simp [notFoundResponse, AppError.intoResponse])
      | some b =>
          exact Host.spawnEntropy_finished (hjoin id rfl) fun _ =>
            internal_other (by simp [entropyResponse])
  | enqueue id => exact absurd rfl (henqueue id)

end Handlers

section Extractors

variable {request : HttpRequest} {uuid : UuidParser} {e : Rejection}

theorem error_of_map {α β : Type} {f : α → β} {x : Except Rejection α} (h : f <$> x = .error e) :
    x = .error e := by
  cases x with
  | ok a => cases h
  | error e' =>
      cases h
      rfl

theorem pathId_error {segment : Option String} (h : HttpRequest.pathId uuid segment = .error e) :
    e ≠ .missingExtension := by
  unfold HttpRequest.pathId at h
  split at h
  · cases h
  · cases h
    decide

theorem ofCategory_ne (category : Json.Category) :
    Rejection.ofCategory category ≠ .missingExtension := by
  cases category with
  | badSyntax | data => decide

theorem jsonBody_error {T : Type} {deserialize : Json.Decoder T} {objection : Json → Json.Category}
    (h : request.jsonBody deserialize objection = .error e) : e ≠ .missingExtension := by
  unfold HttpRequest.jsonBody readJson at h
  split at h
  · split at h
    case h_4 =>
      split at h
      · cases h
      · cases h
        exact ofCategory_ne _
    case h_3 =>
      cases h
      exact ofCategory_ne _
    all_goals
      cases h
      decide
  · cases h
    decide

theorem queryParams_error (h : request.queryParams = .error e) : e ≠ .missingExtension := by
  unfold HttpRequest.queryParams at h
  split at h
  · cases h
  · cases h
    decide

theorem extract_error (h : request.extract uuid = .error e) : e ≠ .missingExtension := by
  unfold HttpRequest.extract at h
  split at h
  · exact queryParams_error (error_of_map h)
  · exact queryParams_error (error_of_map h)
  · exact jsonBody_error (error_of_map h)
  · exact pathId_error (error_of_map h)
  · exact pathId_error (error_of_map h)
  · rename_i segment _ _
    cases hid : HttpRequest.pathId uuid segment with
    | error e' =>
        rw [hid] at h
        obtain rfl := Except.error.inj h
        exact pathId_error hid
    | ok id =>
        rw [hid] at h
        exact jsonBody_error (error_of_map h)
  · exact pathId_error (error_of_map h)
  · exact pathId_error (error_of_map h)
  · exact pathId_error (error_of_map h)
  · cases h
    decide

theorem ok_of_map {α β : Type} {f : α → β} {x : Except Rejection α} {b : β}
    (h : f <$> x = .ok b) : ∃ a, f a = b := by
  cases x with
  | error e' => cases h
  | ok a =>
      cases h
      exact ⟨a, rfl⟩

/-- A publish and an analysis come from a path of their own. -/
theorem extract_path {req : Request} (h : request.extract uuid = .ok req) :
    match req with
    | .enqueue _ => ∃ segment, request.path = .process segment
    | .analyze _ => ∃ segment, request.path = .analyze segment
    | _ => True := by
  unfold HttpRequest.extract at h
  split at h
  case h_6 =>
    rename_i segment _ _
    cases hid : HttpRequest.pathId uuid segment with
    | error e' =>
        rw [hid] at h
        cases h
    | ok id =>
        rw [hid] at h
        obtain ⟨a, rfl⟩ := ok_of_map h
        trivial
  case h_8 =>
    obtain ⟨a, rfl⟩ := ok_of_map h
    exact ⟨_, ‹_›⟩
  case h_9 =>
    obtain ⟨a, rfl⟩ := ok_of_map h
    exact ⟨_, ‹_›⟩
  case h_10 => cases h
  all_goals
    obtain ⟨a, rfl⟩ := ok_of_map h
    trivial

end Extractors

section Routes

variable (host : Host) (request : HttpRequest) (s : Server)

/-- **Which client input causes a 500.** A request other than one to the
queue, with its claims, on a database that can be reached and makes up new
identifiers, is answered 500 exactly if a U+0000 gets as far as a text
parameter. An analysis has to finish: the blocking pool has failures of its
own. -/
theorem server_error_iff {claims : Claims} (hclaims : request.claims = some claims)
    (hpath : ∀ id, request.path ≠ .process id)
    (hjoin : ∀ id, request.path = .analyze id → ∀ i, (host.moment i).env.join = none)
    (hsql : ∀ i, (host.moment i).env.sql = .none)
    (hfresh : s.store.db.find host.oracle.newId = none) :
    (backupRoutes host request s).1.status = 500 ↔
      ∃ req, request.extract host.uuid = .ok req ∧ req.Unstorable := by
  unfold backupRoutes
  rw [hclaims]
  cases hextract : request.extract host.uuid with
  | error e =>
      refine iff_of_false ?_ (by rintro ⟨_, h, -⟩; cases h)
      have he : e ≠ .missingExtension := extract_error hextract
      cases e with
      | missingExtension => exact absurd rfl he
      | invalidPath | invalidQuery | missingJsonContentType | bodyTooLarge | bodyBroken | jsonSyntax
      | jsonData | methodNotAllowed => simp [Rejection.intoResponse, Rejection.status]
  | ok req =>
      have hreq : ∀ id, req ≠ .enqueue id := by
        rintro id rfl
        obtain ⟨segment, hsegment⟩ := extract_path hextract
        exact hpath segment hsegment
      have hfinished : ∀ id, req = .analyze id → ∀ i, (host.moment i).env.join = none := by
        rintro id rfl
        obtain ⟨segment, hsegment⟩ := extract_path hextract
        exact hjoin segment hsegment
      have hinternal : Internal req.Unstorable (runHandler host claims req s).1 _ :=
        handle_internal hsql hfresh hreq hfinished
      constructor
      · intro h
        exact ⟨req, rfl, hinternal.mp h⟩
      · rintro ⟨req', hreq', h⟩
        obtain rfl := Except.ok.inj hreq'
        exact hinternal.mpr h

/-- A host on which nothing goes wrong. -/
def Host.quiet : Host where
  state := ⟨.noop, false⟩
  uuid := .hyphenated
  decode _ _ _ := .error .invalid
  oracle := ⟨⟨1⟩, 0⟩
  moment _ := ⟨{}, .default, 0, 0⟩

/-- A request of some tenant to create a backup of `path`. -/
def createRequest (path : String) : HttpRequest where
  method := .post
  path := .backups
  authorization := none
  query := []
  contentLength := none
  jsonContentType := true
  body := .json (.object [("source_path", .string path)])
  claims := some ⟨"user", ⟨7⟩, [], 0, 0⟩

def Server.empty : Server := ⟨⟨.empty, .empty, []⟩, .empty, 0, []⟩

theorem server_error_iff_data :
    (backupRoutes .quiet (createRequest "/data") .empty).1.status = 500 ↔
      ∃ req, (createRequest "/data").extract Host.quiet.uuid = .ok req ∧ req.Unstorable :=
  server_error_iff .quiet (createRequest "/data") .empty rfl (fun _ h => nomatch h)
    (fun _ h => nomatch h) (fun _ => rfl) rfl

/-- A path with U+0000 passes the validation, and the database refuses it. -/
theorem not_no_server_error :
    (backupRoutes .quiet (createRequest "/a\x00b") .empty).1.status = 500 := by
  decide +kernel

end Routes

end BackupService
