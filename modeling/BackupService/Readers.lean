import BackupService.Ledger

/-!
What the answers of the readers are made of.

A get and a list change nothing. They look into the cache, and if that does
not help they ask the database, and the response is made of what was found
in one of the two places. The bookkeeping of `reading` keeps just that, so
that it is known of a reader at every point what it can still answer.
-/

namespace BackupService

open Lib

def Request.Reads : Request → Prop
  | get _ => True
  | list _ => True
  | _ => False

/-- What a reader has found so far. -/
inductive Found
  | nothing
  /-- A live entry of Redis. -/
  | hit (value : CacheValue)
  | row (answer : Except SqlError (Option Backup))
  | items (answer : Except SqlError (List Backup))
  | page (items : List Backup) (total : Except SqlError ℤ)

/-- The bookkeeping of a reader. -/
structure Reading where
  /-- It has looked for the page of its tenant in the cache. -/
  looked : Bool
  found : Found

namespace Reading

def start : Reading := ⟨false, .nothing⟩

def afterSql (d : Reading) : (q : Sql) → Except SqlError q.Answer → Reading
  | .selectBackup _ _, r => { d with found := .row r }
  | .selectBackups _ _ _ _, r => { d with found := .items r }
  | .countBackups _ _, r =>
      match d.found with
      | .items (.ok items) => { d with found := .page items r }
      | _ => d
  | _, _ => d

/-- What was found under a key, if anything. -/
def afterGet (d : Reading) : Except RedisError (Option CacheValue) → Reading
  | .ok (some value) => { d with found := .hit value }
  | _ => d

def after (d : Reading) : (o : Op) → o.Answer → Reading
  | .sql q, r => d.afterSql q r
  | .redis (.get (.backup _)), r => d.afterGet r
  | .redis (.get (.tenantBackups _)), r => { d.afterGet r with looked := true }
  | _, _ => d

end Reading

/-- What a reader may do. `R` restricts the configurations it may be given. -/
def reading (claims : Claims) (request : Request) (R : AppConfig → Prop) :
    Program.Protocol Op Op.Answer Reading where
  allow d
    | .sql (.selectBackup id tenantId) => request = .get id ∧ tenantId = claims.tenantId
    | .sql (.selectBackups tenantId status limit offset) => ∃ params, request = .list params ∧
        tenantId = claims.tenantId ∧ status = params.status ∧ limit = clamp params.limit 1 100 ∧
          offset = max params.offset 0
    | .sql (.countBackups tenantId status) => ∃ params items, request = .list params ∧
        tenantId = claims.tenantId ∧ status = params.status ∧ d.found = .items (.ok items)
    | .sql _ => False
    | .redis (.get (.backup id)) => request = .get id
    | .redis (.get (.tenantBackups tenantId)) => ∃ params cfg, request = .list params ∧
        tenantId = claims.tenantId ∧ R cfg ∧ useListCache params cfg = true
    | .redis (.setEx (.backup _) _ _) => True
    | .redis (.setEx (.tenantBackups tenantId) _ _) => tenantId = claims.tenantId ∧ d.looked = true
    | .redis (.del _) => False
    | .config => True
    | .entropy _ => True
    | .publish _ => False
  rely _
    | .config, cfg => R cfg
    | _, _ => True
  next d o r := d.after o r

/-- The response is made of what has been found. -/
def Reading.Final (claims : Claims) (d : Reading) : Request → Response → Prop
  | .get id, r =>
      (∃ b, d.found = .hit (.backup b) ∧ b.tenantId = claims.tenantId ∧
        r = ⟨200, .backup (.from b)⟩) ∨
      ∃ answer, d.found = .row answer ∧ r = rowResponse id answer
  | .list params, r =>
      (∃ items total, d.found = .hit (.page items total) ∧ r = listResponse params items total) ∨
      (∃ e, d.found = .items (.error e) ∧ r = databaseResponse e) ∨
      ∃ items total, d.found = .page items total ∧ r = pageResponse params (.ok items) total
  | _, _ => True

section Handlers

open Program

variable {R : AppConfig → Prop} {state : AppState} {claims : Claims} {d : Reading}

theorem getAfterLookup_reading (id : Uuid) {copy : Option Backup}
    (hcopy : ∀ b, copy = some b → b.tenantId = claims.tenantId ∧ d.found = .hit (.backup b)) :
    Obeys (reading claims (.get id) R) (fun d => d.Final claims (.get id)) d
      (getAfterLookup state claims id copy) := by
  cases copy with
  | some b => exact .inl ⟨b, (hcopy b rfl).2, (hcopy b rfl).1, rfl⟩
  | none =>
      refine obeys_query.mpr ⟨⟨rfl, rfl⟩, fun r _ => ?_⟩
      rcases r with e | (_ | b)
      · exact .inr ⟨_, rfl, rfl⟩
      · exact .inr ⟨_, rfl, rfl⟩
      · have hfinal : Reading.Final claims { d with found := .row (.ok (some b)) } (.get id)
            ⟨200, .backup (.from b)⟩ := .inr ⟨_, rfl, rfl⟩
        exact obeys_bind.mpr (state.cache.obeys_setBackup
          (fun _ => ⟨trivial, fun _ _ => ⟨trivial, fun _ _ => hfinal⟩⟩) fun _ => hfinal)

theorem listAfterLookup_reading {cfg : AppConfig} (params : ListParams)
    (hlooked : state.cache.redis = true → useListCache params cfg = true → d.looked = true)
    {copy : Option (List Backup × ℤ)}
    (hcopy : ∀ items total, copy = some (items, total) → d.found = .hit (.page items total)) :
    Obeys (reading claims (.list params) R) (fun d => d.Final claims (.list params)) d
      (listAfterLookup state claims params cfg copy) := by
  rcases copy with _ | ⟨items, total⟩
  · refine obeys_query.mpr ⟨⟨params, rfl, rfl, rfl, rfl, rfl⟩, fun r _ => ?_⟩
    cases r with
    | error e => exact .inr (.inl ⟨e, rfl, rfl⟩)
    | ok items =>
        refine obeys_query.mpr ⟨⟨params, items, rfl, rfl, rfl, rfl⟩, fun r _ => ?_⟩
        cases r with
        | error e => exact .inr (.inr ⟨items, .error e, rfl, rfl⟩)
        | ok total =>
            have hfinal : Reading.Final claims { d with found := .page items (.ok total) }
                (.list params) (listResponse params items total) :=
              .inr (.inr ⟨items, .ok total, rfl, rfl⟩)
            dsimp only
            split
            · rename_i huse
              exact obeys_bind.mpr (state.cache.obeys_setTenantBackups
                (fun hredis => ⟨trivial, fun _ _ => ⟨⟨rfl, hlooked hredis huse⟩, fun _ _ => hfinal⟩⟩)
                fun _ => hfinal)
            · exact hfinal
  · exact .inl ⟨items, total, hcopy items total rfl, rfl⟩

/-- **Every reader keeps to the protocol.** -/
theorem handle_reading (state : AppState) {request : Request} (hreads : request.Reads) :
    Obeys (reading claims request R) (fun d => d.Final claims request) .start
      (handle state claims request) := by
  cases request with
  | get id =>
      rw [handle_get]
      refine obeys_bind.mpr (state.cache.obeys_getBackup (fun _ => ⟨rfl, fun r _ => ?_⟩)
        fun _ => getAfterLookup_reading id fun b h => nomatch h)
      refine getAfterLookup_reading id fun b hb => ?_
      obtain ⟨hb, htenant⟩ := Option.filter_eq_some_iff.mp hb
      rcases r with e | _ | v
      · cases hb
      · cases hb
      · obtain rfl := Option.some.inj (cachedBackup_ok.mp hb)
        exact ⟨of_decide_eq_true htenant, rfl⟩
  | list params =>
      rw [handle_list]
      refine obeys_readConfig.mpr ⟨trivial, fun cfg hcfg => ?_⟩
      split
      · rename_i huse
        refine obeys_bind.mpr (state.cache.obeys_getTenantBackups
          (fun _ => ⟨⟨params, cfg, rfl, rfl, hcfg, huse⟩, fun r _ => ?_⟩) fun hredis => ?_)
        · refine listAfterLookup_reading params (fun _ _ => rfl) fun items total h => ?_
          rcases r with e | _ | v
          · cases h
          · cases h
          · obtain rfl := Option.some.inj (cachedPage_ok.mp h)
            rfl
        · refine listAfterLookup_reading params (fun h => ?_) fun items total h => nomatch h
          rw [hredis] at h
          cases h
      · rename_i huse
        exact listAfterLookup_reading params (fun _ h => (huse h).elim) fun items total h => nomatch h
  | create | update | delete | analyze | enqueue => exact hreads.elim

end Handlers

end BackupService
