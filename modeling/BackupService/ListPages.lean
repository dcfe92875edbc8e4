import BackupService.Turns

/-!
List responses, and the limit and offset they echo.

The page of a tenant is cached under a key that names the tenant and
nothing else, and which page that is follows from the configuration at the
time. When `cached_list_limit` or `cached_list_offset` is changed, or when
two replicas have different ones, a list request can find a page that was
cached for another window.
-/

namespace BackupService

open Lib

/-- The requests are executed one at a time and nothing fails. The
configurations may change. -/
def Event.Calm (order : RowOrder) (s : State) : Event → Prop
  | start _ _ _ _ _ => ∀ id, s.inflight id = none
  | step _ env => env.FaultFree ∧ env.order = order
  | drop _ => False
  | rpc _ _ _ => False
  | configUpdate _ _ => True
  | expire _ => True
  | advance _ => True

/-- A list response shows the rows at the positions it names, of the rows
of the tenant as they are. -/
def ListMatches (uuid : UuidParser) (order : RowOrder) (s : State) (e : Event) : Prop :=
  ∀ id params list, .responded id (.list params) ⟨200, .list list⟩ ∈ ((system uuid).step s e).2 →
    ∃ th, s.inflight id = some th ∧ (list.items.length : ℤ) ≤ list.limit ∧
      list.items = (s.store.db.page order th.claims.tenantId params.status list.limit list.offset).map
        .from

/-- The system, with the window for which the page of each tenant has last
been looked for. -/
abbrev windowed (uuid : UuidParser) : Machine (State × Windows) Event Obs :=
  (system uuid).annotated fun s e windows => windows.note (s.looksFor e)

/-- If a list request finds a page in the cache, the request of the tenant
that has looked for it before had the same limit and offset, or the rows
between are the same all the same. -/
def PageFits (order : RowOrder) (p : State × Windows) (e : Event) : Prop :=
  Fits order p.2 p.1.store (p.1.looksFor e)

section Main

variable {uuid : UuidParser} {order : RowOrder} {windows : Windows} {s : State} {e : Event}

theorem Event.Calm.oneAtATime (h : e.Calm order s) : OneAtATime order s e := by
  cases e with
  | start replica seq claims request oracle => exact h
  | step id env => exact ⟨h.1.sql, h.2⟩
  | rpc call oracle env => exact h.elim
  | drop | configUpdate | expire | advance => trivial

theorem Event.Calm.noSkippedDeletion (h : e.Calm order s) : NoSkippedDeletion s e := by
  cases e with
  | step id env =>
      intro hfault
      rw [h.1.redis] at hfault
      cases hfault
  | drop id => exact h.elim
  | start | rpc | configUpdate | expire | advance => trivial

theorem length_page_le (t : Table) (tenantId : Uuid) (status : Option String) {limit : ℤ}
    (offset : ℤ) (hlimit : 0 ≤ limit) : ((t.page order tenantId status limit offset).length : ℤ) ≤ limit := by
  have htake : (t.page order tenantId status limit offset).length ≤ limit.toNat :=
    List.length_take_le ..
  omega

theorem one_le_clamp (x : ℤ) : 1 ≤ clamp x 1 100 := by
  unfold clamp
  split
  · omega
  · split <;> omega

/-- A successful answer of the table is the page that was asked for. -/
theorem directAnswer_list {amqpChannel : Bool} {claims : Claims} {oracle : Oracle}
    {params : ListParams} {t : Table} {list : ListResponse}
    (h : (directAnswer order amqpChannel claims oracle (.list params) t).1 = ⟨200, .list list⟩) :
    list.limit = clamp params.limit 1 100 ∧
      list.items = (t.page order claims.tenantId params.status list.limit list.offset).map .from := by
  rw [directAnswer] at h
  rcases hitems : ((Sql.selectBackups claims.tenantId params.status (clamp params.limit 1 100)
    (max params.offset 0)).exec order oracle t).1 with err | items
  · rw [hitems] at h
    cases h
  · rcases htotal : ((Sql.countBackups claims.tenantId params.status).exec order oracle t).1 with
      err | total
    · rw [hitems, htotal] at h
      cases h
    · rw [hitems, htotal] at h
      simp only [pageResponse, listResponse, Response.mk.injEq, Body.list.injEq, true_and] at h
      subst h
      exact ⟨rfl, congrArg _ (exec_selectBackups_ok _ _ _ _ _ hitems)⟩

theorem Turnwise.listMatches {R : AppConfig → Prop} (h : Turnwise order R windows s) :
    ListMatches uuid order s e := by
  intro id params list hobs
  obtain ⟨th, hth, hanswer⟩ := h.answer hobs trivial true
  obtain ⟨hlimit, hitems⟩ := directAnswer_list hanswer.symm
  refine ⟨th, hth, ?_, hitems⟩
  rw [hitems, List.length_map]
  refine length_page_le _ _ _ _ ?_
  have := one_le_clamp params.limit
  omega

/-- **List answers match their own limit and offset** in every calm run in
which no list request finds a page of other rows than it asks for. -/
theorem lists_match (uuid : UuidParser) (order : RowOrder) (db : Table) (amqpChannel : ℕ → Bool)
    (configs : ℕ → AppConfig) (es : List Event)
    (hcalm : (system uuid).Along (fun s e => e.Calm order s)
      (.initial db fun replica => ⟨⟨.connected, amqpChannel replica⟩, configs replica⟩) es)
    (hfits : (windowed uuid).Along (PageFits order)
      (.initial db fun replica => ⟨⟨.connected, amqpChannel replica⟩, configs replica⟩,
        fun _ => (0, 0)) es) :
    (system uuid).Along (ListMatches uuid order)
      (.initial db fun replica => ⟨⟨.connected, amqpChannel replica⟩, configs replica⟩) es := by
  have hes := Machine.along_and.mpr ⟨Machine.along_annotated _ _ |>.mpr hcalm, hfits⟩
  refine Machine.along_annotated (system uuid) _ |>.mp
    (hes.along (I := fun p => Turnwise order (fun _ => True) p.2 p.1) ?_ ?_
      (Turnwise.initial fun replica => ⟨trivial, rfl⟩))
  · rintro p e hp ⟨hcalm, hfit⟩
    exact hp.step hcalm.oneAtATime hcalm.noSkippedDeletion hfit fun _ _ _ _ _ => trivial
  · exact fun p e hp _ => hp.listMatches

end Main

/-! ### A page for another window -/

section Moved

/-- One row of tenant `1`, and a replica with the default configuration. -/
def listState : State := .initial oneRow fun _ => ⟨⟨.connected, true⟩, .default⟩

/-- The first page is listed, the configuration is updated, and another page
is listed. -/
def listTwice (update : RemoteConfigUpdate) (params : ListParams) : List Event :=
  oneRequest 0 (.list ⟨0, 20, none⟩) 7 ++ .configUpdate 0 update :: oneRequest 1 (.list params) 3

theorem fits_of_none {p : State × Windows} {e : Event} (h : p.1.looksFor e = none) :
    PageFits .stable p e := by
  intro tenantId params hlook
  rw [h] at hlook
  cases hlook

theorem calm_listTwice (update : RemoteConfigUpdate) (params : ListParams) :
    (system .hyphenated).Along (fun s e => e.Calm .stable s) listState (listTwice update params) := by
  have hstep : ∀ (seq : ℕ) (s : State), Event.Calm .stable s (.step ⟨⟨1⟩, seq⟩ {}) := fun seq s =>
    ⟨⟨rfl, rfl, rfl⟩, rfl⟩
  have hidle : ∀ id, ((system .hyphenated).run listState
      (oneRequest 0 (.list ⟨0, 20, none⟩) 7)).inflight id = none :=
    idle_oneRequest (fun id => rfl) rfl
  exact Machine.along_append.mpr ⟨along_oneRequest (fun id => rfl) (hstep 0), trivial,
    along_oneRequest hidle (hstep 1)⟩

/-- The cached page gets a higher limit, and the table has no more rows to
show. -/
theorem lists_match_listTwice : (system .hyphenated).Along (ListMatches .hyphenated .stable)
    listState (listTwice { cachedListLimit := some 50 } ⟨0, 50, none⟩) := by
  refine lists_match .hyphenated .stable oneRow (fun _ => true) (fun _ => .default) _
    (calm_listTwice _ _) ?_
  refine ⟨fits_of_none rfl, fits_of_none rfl, ?_, fits_of_none rfl, fits_of_none rfl, fits_of_none rfl,
    fits_of_none rfl, fits_of_none rfl, fits_of_none rfl, fits_of_none rfl, fits_of_none rfl, ?_,
    fits_of_none rfl, trivial⟩
  · intro tenantId params hlook hlive
    cases hlook
    exact (hlive rfl).elim
  · intro tenantId params hlook _
    cases hlook
    rfl

/-- After the offset of the cached page has been moved, the page that starts
at the new offset shows the row at position zero. -/
theorem not_lists_match :
    (system .hyphenated).Along (fun s e => e.Calm .stable s) listState
        (listTwice { cachedListOffset := some 5 } ⟨5, 20, none⟩) ∧
      ¬ (system .hyphenated).Along (ListMatches .hyphenated .stable) listState
        (listTwice { cachedListOffset := some 5 } ⟨5, 20, none⟩) := by
  refine ⟨calm_listTwice _ _, fun h => ?_⟩
  rw [show listTwice { cachedListOffset := some 5 } ⟨5, 20, none⟩ =
    (listTwice { cachedListOffset := some 5 } ⟨5, 20, none⟩).dropLast ++ [.step ⟨⟨1⟩, 1⟩ {}] from rfl,
    Machine.along_append] at h
  obtain ⟨th, hth, -, hitems⟩ := h.2.1 ⟨⟨1⟩, 1⟩ ⟨5, 20, none⟩
    ⟨[.from ⟨⟨7⟩, ⟨1⟩, "/data", 0, "pending", false, 0, 0⟩], 1, 5, 20⟩ (List.mem_singleton.mpr rfl)
  cases hth
  exact absurd hitems (by decide)

end Moved

end BackupService
