import BackupService.Turns

/-!
Faults of Redis, and handlers that are cut off.

The cache ignores every error, and the timeout layer drops a handler
wherever it is. A change that has been committed can so be left without the
deletions that should follow it, and then its readers are shown what was
there before. Nothing else that can fail does any harm: a lost read is a
miss, a lost SETEX leaves less in the cache, and a handler that is dropped
before its statement, or after its deletions, leaves nothing undone.
-/

namespace BackupService

open Lib

/-- The requests are executed one at a time. Redis may fail and handlers may
be dropped. -/
def Event.Degraded (order : RowOrder) (s : State) : Event → Prop
  | start _ _ _ _ _ => ∀ id, s.inflight id = none
  | step _ env => env.sql = .none ∧ env.order = order
  | drop _ => True
  | rpc _ _ _ => False
  | configUpdate _ _ => False
  | expire _ => True
  | advance _ => True

/-- A get or a list is answered as the table is at this moment; all that has
been committed before is in it. -/
def ReadsCurrent (uuid : UuidParser) (order : RowOrder) (s : State) (e : Event) : Prop :=
  ∀ id request response, .responded id request response ∈ ((system uuid).step s e).2 →
    request.Reads → ∀ amqpChannel, ∃ th, s.inflight id = some th ∧
      response = (directAnswer order amqpChannel th.claims th.oracle request s.store.db).1

/-- The window of the configuration, for every tenant. -/
def AppConfig.windows (config : AppConfig) : Windows := fun _ =>
  (config.cachedListLimit, config.cachedListOffset)

section Main

variable {uuid : UuidParser} {order : RowOrder} {config : AppConfig} {s : State} {e : Event}

/-- With one configuration all pages are cached for one window. -/
theorem windows_note (h : Turnwise order (· = config) config.windows s) :
    config.windows.note (s.looksFor e) = config.windows ∧
      Fits order config.windows s.store (s.looksFor e) := by
  rcases hlook : s.looksFor e with _ | ⟨tenantId, params⟩
  · refine ⟨rfl, fun tenantId params h => ?_⟩
    cases h
  · obtain ⟨cfg, rfl, hrange⟩ := h.range_of_looksFor hlook
    refine ⟨?_, fun tenantId' params' h _ => ?_⟩
    · funext tenantId'
      by_cases heq : tenantId' = tenantId
      · rw [heq, Windows.note, Function.update_self, hrange]
        rfl
      · rw [Windows.note, Function.update_of_ne heq]
    · obtain ⟨rfl, rfl⟩ := Prod.mk.inj (Option.some.inj h)
      rw [hrange]
      rfl

theorem Event.Degraded.step (he : e.Degraded order s) (hskip : NoSkippedDeletion s e)
    (h : Turnwise order (· = config) config.windows s) :
    Turnwise order (· = config) config.windows ((system uuid).step s e).1 := by
  obtain ⟨hnote, hfit⟩ := windows_note (e := e) h
  rw [← hnote]
  refine h.step ?_ hskip hfit ?_
  · cases e with
    | start replica seq claims request oracle => exact he
    | step id env => exact he
    | rpc call oracle env => exact he.elim
    | drop | configUpdate | expire | advance => trivial
  · rintro replica update rfl
    exact he.elim

/-- **Degradation is graceful** in every run in which no deletion of a live
entry is skipped: what a get or a list shows is never out of date. -/
theorem reads_current (uuid : UuidParser) (order : RowOrder) (db : Table) (config : AppConfig)
    (amqpChannel : ℕ → Bool) (es : List Event)
    (hdegraded : (system uuid).Along (fun s e => e.Degraded order s)
      (.connected db config amqpChannel) es)
    (hskip : (system uuid).Along NoSkippedDeletion (.connected db config amqpChannel) es) :
    (system uuid).Along (ReadsCurrent uuid order) (.connected db config amqpChannel) es := by
  have hes := Machine.along_and.mpr ⟨hdegraded, hskip⟩
  refine hes.along (I := Turnwise order (· = config) config.windows)
    (fun s e h he => he.1.step he.2 h) (fun s e h _ => ?_) (Turnwise.initial fun replica => ⟨rfl, rfl⟩)
  exact fun id request response hobs hreads amqpChannel => h.answer hobs hreads amqpChannel

end Main

/-! ### A deletion that is skipped -/

section Skipped

/-- One row of tenant `1`, and the default configuration everywhere. -/
def degradedState : State := .connected oneRow .default fun _ => true

/-- The backup is read, and then patched; `fate` is what becomes of the
handler after its statement. Then the backup is read again. -/
def readPatchRead (fate : List Event) (n : ℕ) : List Event :=
  oneRequest 0 (.get ⟨7⟩) 5 ++ oneRequest 1 (.update ⟨7⟩ ⟨some .running, none⟩) 1 ++ fate ++
    oneRequest 2 (.get ⟨7⟩) n

/-- A move of the patch; `fault` is what Redis does with its command. -/
def patchStep (fault : Fault) : Event := .step ⟨⟨1⟩, 1⟩ { redis := fault }

theorem degraded_readPatchRead {fate : List Event} (n : ℕ)
    (hfate : ∀ e ∈ fate, e = .drop ⟨⟨1⟩, 1⟩ ∨ ∃ fault, e = patchStep fault)
    (hdone : ((system .hyphenated).run ((system .hyphenated).run degradedState
      (oneRequest 0 (.get ⟨7⟩) 5)) (oneRequest 1 (.update ⟨7⟩ ⟨some .running, none⟩) 1 ++ fate)).inflight
        ⟨⟨1⟩, 1⟩ = none) :
    (system .hyphenated).Along (fun s e => e.Degraded .stable s) degradedState (readPatchRead fate n) := by
  have hstep : ∀ (seq : ℕ) (s : State), Event.Degraded .stable s (.step ⟨⟨1⟩, seq⟩ {}) := fun seq s =>
    ⟨rfl, rfl⟩
  have hidle : ∀ id, ((system .hyphenated).run degradedState
      (oneRequest 0 (.get ⟨7⟩) 5)).inflight id = none := idle_oneRequest (fun id => rfl) rfl
  have hfate' : ∀ s, (system .hyphenated).Along (fun s e => e.Degraded .stable s) s fate := by
    clear hdone
    induction fate with
    | nil => exact fun s => trivial
    | cons e fate ih =>
        refine fun s => ⟨?_, ih (fun e he => hfate e (List.mem_cons_of_mem _ he)) _⟩
        rcases hfate e List.mem_cons_self with rfl | ⟨fault, rfl⟩
        · trivial
        · exact ⟨rfl, rfl⟩
  rw [readPatchRead, List.append_assoc, List.append_assoc, Machine.along_append, Machine.along_append,
    Machine.along_append]
  refine ⟨along_oneRequest (fun id => rfl) (hstep 0), along_oneRequest hidle (hstep 1), hfate' _,
    along_oneRequest (fun id => ?_) (hstep 2)⟩
  rw [← Machine.run_append]
  by_cases hid : id = ⟨⟨1⟩, 1⟩
  · rw [hid, hdone]
  · refine run_inflight_none (hidle id) fun replica seq claims request oracle hmem heq => hid ?_
    rcases List.mem_append.mp hmem with hmem | hmem
    · rcases List.mem_cons.mp hmem with hstart | hrest
      · obtain ⟨-, rfl, rfl, -, -⟩ := Event.start.inj hstart
        exact heq
      · cases List.eq_of_mem_replicate hrest
    · rcases hfate _ hmem with h | ⟨fault, h⟩ <;> cases h

/-- The deletion of the page fails, but there is none. -/
theorem reads_current_readPatchRead : (system .hyphenated).Along (ReadsCurrent .hyphenated .stable)
    degradedState (readPatchRead [patchStep .none, patchStep .before, patchStep .none] 5) := by
  refine reads_current .hyphenated .stable oneRow .default (fun _ => true) _
    (degraded_readPatchRead 5 ?_ rfl) ?_
  · intro e he
    simp only [List.mem_cons, List.not_mem_nil, or_false] at he
    rcases he with rfl | rfl | rfl <;> exact .inr ⟨_, rfl⟩
  · have hnone : ∀ (seq : ℕ) (s : State), NoSkippedDeletion s (.step ⟨⟨1⟩, seq⟩ {}) := fun seq s h =>
      nomatch h
    refine Machine.along_append.mpr ⟨Machine.along_append.mpr ⟨Machine.along_append.mpr
      ⟨along_oneRequest trivial (hnone 0), along_oneRequest trivial (hnone 1)⟩, hnone 1 _, ?_, hnone 1 _,
      trivial⟩, along_oneRequest trivial (hnone 2)⟩
    intro _ th key k hth hprog
    cases hth
    cases hprog
    rfl

/-- With one of these fates the last get shows what was cached first. -/
theorem stale_of_obs {fate : List Event} {s : State}
    (hs : (system .hyphenated).run degradedState (oneRequest 0 (.get ⟨7⟩) 5 ++
      oneRequest 1 (.update ⟨7⟩ ⟨some .running, none⟩) 1 ++ fate ++ oneRequest 2 (.get ⟨7⟩) 1) = s)
    (hfind : s.store.db.find ⟨7⟩ = some ⟨⟨7⟩, ⟨1⟩, "/data", 0, "running", false, 0, 1⟩)
    (htenant : ∀ th, s.inflight ⟨⟨1⟩, 2⟩ = some th → th.claims.tenantId = ⟨1⟩)
    (hobs : ((system .hyphenated).step s (.step ⟨⟨1⟩, 2⟩ {})).2 = [.responded ⟨⟨1⟩, 2⟩ (.get ⟨7⟩)
      ⟨200, .backup (.from ⟨⟨7⟩, ⟨1⟩, "/data", 0, "pending", false, 0, 0⟩)⟩]) :
    ¬ (system .hyphenated).Along (ReadsCurrent .hyphenated .stable) degradedState
      (readPatchRead fate 2) := by
  intro h
  have hlast : readPatchRead fate 2 =
      (oneRequest 0 (.get ⟨7⟩) 5 ++ oneRequest 1 (.update ⟨7⟩ ⟨some .running, none⟩) 1 ++ fate ++
        oneRequest 2 (.get ⟨7⟩) 1) ++ [.step ⟨⟨1⟩, 2⟩ {}] := by
    rw [readPatchRead, List.append_assoc _ (oneRequest 2 (.get ⟨7⟩) 1)]
    rfl
  rw [hlast, Machine.along_append, hs] at h
  obtain ⟨th, hth, hanswer⟩ :=
    h.2.1 ⟨⟨1⟩, 2⟩ (.get ⟨7⟩) _ (hobs ▸ List.mem_singleton.mpr rfl) trivial true
  rw [directAnswer, exec_selectBackup_fst, hfind, htenant th hth] at hanswer
  dsimp only at hanswer
  exact absurd hanswer (by decide)

/-- The handler is cut off after its statement, or its deletion of the copy
fails: the backup is running, and a get shows that it is pending. -/
theorem not_reads_current :
    ((system .hyphenated).Along (fun s e => e.Degraded .stable s) degradedState
        (readPatchRead [.drop ⟨⟨1⟩, 1⟩] 2) ∧
      ¬ (system .hyphenated).Along (ReadsCurrent .hyphenated .stable) degradedState
        (readPatchRead [.drop ⟨⟨1⟩, 1⟩] 2)) ∧
    (system .hyphenated).Along (fun s e => e.Degraded .stable s) degradedState
        (readPatchRead [patchStep .before, patchStep .none, patchStep .none] 2) ∧
      ¬ (system .hyphenated).Along (ReadsCurrent .hyphenated .stable) degradedState
        (readPatchRead [patchStep .before, patchStep .none, patchStep .none] 2) := by
  refine ⟨⟨degraded_readPatchRead 2 (by simp) rfl, ?_⟩, degraded_readPatchRead 2 (by simp [patchStep]) rfl, ?_⟩
  · exact stale_of_obs rfl rfl (fun th hth => by cases hth; rfl) rfl
  · exact stale_of_obs rfl rfl (fun th hth => by cases hth; rfl) rfl

end Skipped

end BackupService
