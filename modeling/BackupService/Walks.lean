import BackupService.History
import BackupService.Pagination
import BackupService.Snapshots
import Mathlib.Data.List.Perm.Subperm

/-!
Walking through a list that is being written to.

While a client asks for one page after the other, backups are created,
patched and reported on. Every page is cut out of the table as it is at its
own moment. What is created meanwhile pushes the rows that the client has yet
to see to later pages, so it may see a row twice, and it misses none
(`walk_misses_nothing`). Only what leaves the list makes the others move up,
in front of a client that is past their new place.
-/

namespace BackupService

open Lib

/-! ### The walk -/

/-- A page that a client has asked for and got. -/
structure PageRead where
  id : ReqId
  /-- What had happened when the request was sent. -/
  sent : List Event
  /-- What had happened when it was answered. -/
  received : List Event
  rows : List Backup
  total : ℤ

def PageRead.Shows (page : PageRead) (id : Uuid) : Prop := id ∈ page.rows.map Backup.id

instance (page : PageRead) (id : Uuid) : Decidable (page.Shows id) :=
  inferInstanceAs (Decidable (_ ∈ _))

/-- The parameters of the client that asks for page `i`. -/
def pageParams (status : Option String) (limit : ℤ) (i : ℕ) : ListParams :=
  { offset := ((i * pageSize limit : ℕ) : ℤ), limit, status }

section Walk

variable (uuid : UuidParser) (s : State) (es : List Event) (tenantId : Uuid) (status : Option String)
  (limit : ℤ)

/-- The client has sent the list request, and it has been answered with the
page, which does not come from the cache. -/
structure ReadsPage (params : ListParams) (page : PageRead) : Prop where
  tenant : page.id.tenant = tenantId
  order : page.sent <+: page.received
  fresh : (stateAfter uuid s page.sent).inflight page.id = none
  answered : ∃ e, page.received ++ [e] <+: es ∧
    .responded page.id (.list params) (listResponse params page.rows page.total) ∈
      ((system uuid).step (stateAfter uuid s page.received) e).2
  uncached : ∀ m rows total, ¬ Performed uuid s page.received page.id m
    (.redis (.get (.tenantBackups page.id.tenant))) (.ok (some (.page rows total)))

/-- The client gets one page after the other, until it has reached the
total. -/
structure WalksThrough (n : ℕ) (page : ℕ → PageRead) : Prop where
  reads : ∀ i ≤ n, ReadsPage uuid s es tenantId (pageParams status limit i) (page i)
  inTurn : ∀ i < n, (page i).received <+: (page (i + 1)).sent
  last : (page n).total ≤ (((n + 1) * pageSize limit : ℕ) : ℤ)

/-- The event takes no row out of the list. -/
def NoneLeaves (e : Event) : Prop :=
  ∀ r ∈ s.store.db.matching tenantId status,
    ∃ r' ∈ ((system uuid).step s e).1.store.db.matching tenantId status, r'.id = r.id

/-- Nor does any event between. -/
def NoneLeavesBetween (p q : List Event) : Prop :=
  ∀ m e, p <+: m → m ++ [e] <+: q → NoneLeaves uuid (stateAfter uuid s m) tenantId status e

end Walk

/-! ### One page -/

section Page

variable {uuid : UuidParser} {db : Table} {replicas : ℕ → Replica} {es : List Event} {tenantId : Uuid}
  {params : ListParams} {page : PageRead}

theorem listResponse_inj {rows rows' : List Backup} {total total' : ℤ}
    (h : listResponse params rows total = listResponse params rows' total') :
    rows = rows' ∧ total = total' := by
  simp only [listResponse, Response.mk.injEq, true_and] at h
  obtain ⟨hitems, htotal, -⟩ := ListResponse.mk.inj (Body.list.inj h)
  exact ⟨List.map_injective_iff.mpr BackupResponse.from_injective hitems, htotal⟩

/-- A request that is in flight from one moment to another has been sent
before the first one. -/
theorem Meanwhile.sent {s : State} {id : ReqId} {p q : List Event} (h : Meanwhile uuid s es id p)
    (hlive : ((stateAfter uuid s es).inflight id).isSome = true) (hq : q <+: es)
    (hfresh : (stateAfter uuid s q).inflight id = none) : q <+: p := by
  obtain ⟨post, rfl, hpost⟩ := h
  rcases List.prefix_or_prefix_of_prefix hq (List.prefix_append p post) with hbefore | ⟨mid, rfl⟩
  · exact hbefore
  · exfalso
    obtain ⟨rest, hrest⟩ := hq
    rw [List.append_assoc] at hrest
    obtain rfl := List.append_cancel_left hrest
    obtain ⟨-, hlast⟩ := Machine.along_append.mp hpost
    rw [← Machine.run_append] at hlast
    cases rest with
    | nil =>
        rw [List.append_nil, hfresh] at hlive
        cases hlive
    | cons e rest =>
        have hinflight : ((stateAfter uuid s (p ++ mid)).inflight id).isSome = true := hlast.1
        rw [hfresh] at hinflight
        cases hinflight

/-- A page that does not come from the cache is a page of the table as it was
at some moment after the request was sent, and the total is the count of a
later moment. -/
theorem ReadsPage.moments (h : ReadsPage uuid (.initial db replicas) es tenantId params page) :
    ∃ p q, page.sent <+: p ∧ p <+: q ∧ q <+: page.received ∧
      (stateAfter uuid (.initial db replicas) p).store.db.ShowsPage params tenantId page.rows ∧
      page.total = (stateAfter uuid (.initial db replicas) q).store.db.count tenantId params.status := by
  obtain ⟨e, -, hobs⟩ := h.answered
  obtain ⟨env, th, rfl, hth, hrequest, hprog⟩ := step_responded hobs
  obtain ⟨d, hd⟩ := run_listed uuid db replicas page.received page.id th params hth hrequest
  have hfinal := hd.final hprog
  have hlive : ((stateAfter uuid (.initial db replicas) page.received).inflight page.id).isSome =
      true := by
    rw [hth]
    rfl
  cases d with
  | start => exact hfinal.elim
  | hit rows total =>
      obtain ⟨m, hm⟩ := hd.recorded
      exact (h.uncached m rows total hm).elim
  | failed err =>
      have hstatus : 200 = 500 := congrArg Response.status hfinal
      omega
  | items rows => exact hfinal.elim
  | page rows total =>
      obtain ⟨hrows, htotal⟩ := listResponse_inj hfinal
      obtain ⟨p, q, hread⟩ := hd.readInTurn
      have hp := hread.selected.meanwhile
      have hq := hread.counted.meanwhile
      refine ⟨p, q, hp.sent hlive h.order h.fresh, ?_, ?_, ?_, ?_⟩
      · obtain ⟨post, hpost, -⟩ := hp
        obtain ⟨post', hpost', -⟩ := hq
        exact List.prefix_of_prefix_length_le ⟨post, hpost.symm⟩ ⟨post', hpost'.symm⟩ hread.later.le
      · obtain ⟨post, hpost, -⟩ := hq
        exact ⟨post, hpost.symm⟩
      · rw [hrows, ← h.tenant]
        exact hread.page
      · rw [htotal, ← h.tenant]
        exact hread.count

end Page

/-! ### The list in the meantime -/

section Meantime

variable {uuid : UuidParser} {db : Table} {replicas : ℕ → Replica} {tenantId : Uuid}
  {status : Option String}

theorem mem_matching {t : Table} {r : Backup} (h : r ∈ t.matching tenantId status) :
    t.find r.id = some r := Table.find_eq_some.mpr ⟨List.mem_of_mem_filter h, rfl⟩

theorem matching_nodup (t : Table) : ((t.matching tenantId status).map Backup.id).Nodup :=
  t.primaryKey.sublist (List.filter_sublist.map _)

/-- Nothing that is done to a row changes when it has been created. -/
theorem step_createdAt {s : State} (hissuing : s.Issuing) {e : Event} {id : Uuid} {r r' : Backup}
    (hr : s.store.db.find id = some r)
    (hr' : ((system uuid).step s e).1.store.db.find id = some r') : r'.createdAt = r.createdAt := by
  rcases step_find uuid hissuing e id with ⟨w, -, htakes⟩ | ⟨-, hsame⟩
  · rw [hr, hr'] at htakes
    cases htakes <;> rfl
  · rw [hsame, hr] at hr'
    rw [Option.some.inj hr']

/-- What an event does to the list out of which it takes nothing: each row is
still there, with its place in the order. -/
theorem NoneLeaves.subset {s : State} {e : Event} (h : NoneLeaves uuid s tenantId status e)
    (hissuing : s.Issuing) {r : Backup} (hr : r ∈ s.store.db.matching tenantId status) :
    ∃ r' ∈ ((system uuid).step s e).1.store.db.matching tenantId status,
      r'.id = r.id ∧ r'.createdAt = r.createdAt := by
  obtain ⟨r', hr', hid⟩ := h r hr
  have hfind := mem_matching hr'
  rw [hid] at hfind
  exact ⟨r', hr', hid, step_createdAt hissuing (mem_matching hr) hfind⟩

variable {p q m : List Event}

/-- What a run does to a list that nothing leaves. -/
theorem NoneLeavesBetween.subset
    (h : NoneLeavesBetween uuid (.initial db replicas) tenantId status p q) (hpm : p <+: m)
    (hmq : m <+: q) {r : Backup}
    (hr : r ∈ (stateAfter uuid (.initial db replicas) p).store.db.matching tenantId status) :
    ∃ r' ∈ (stateAfter uuid (.initial db replicas) m).store.db.matching tenantId status,
      r'.id = r.id ∧ r'.createdAt = r.createdAt := by
  obtain ⟨rest, rfl⟩ := hpm
  induction rest using List.reverseRecOn with
  | nil =>
      rw [List.append_nil]
      exact ⟨r, hr, rfl, rfl⟩
  | append_singleton rest e ih =>
      rw [← List.append_assoc] at hmq ⊢
      obtain ⟨r', hr', hid, hcreated⟩ := ih ((List.prefix_append _ _).trans hmq)
      have hnone := h (p ++ rest) e (List.prefix_append _ _) hmq
      obtain ⟨r'', hr'', hid', hcreated'⟩ :=
        hnone.subset (run_issuing uuid replicas db (p ++ rest)) hr'
      rw [stateAfter_concat]
      exact ⟨r'', hr'', hid'.trans hid, hcreated'.trans hcreated⟩

theorem NoneLeavesBetween.mono {p' q' : List Event}
    (h : NoneLeavesBetween uuid (.initial db replicas) tenantId status p q) (hp : p <+: p')
    (hq : q' <+: q) : NoneLeavesBetween uuid (.initial db replicas) tenantId status p' q' :=
  fun m e hm hme => h m e (hp.trans hm) (hme.trans hq)

/-- So the instants of creation in the list only become more. -/
theorem NoneLeavesBetween.subperm
    (h : NoneLeavesBetween uuid (.initial db replicas) tenantId status p q) (hpq : p <+: q) :
    (((stateAfter uuid (.initial db replicas) p).store.db.matching tenantId status).map
        Backup.createdAt).Subperm
      (((stateAfter uuid (.initial db replicas) q).store.db.matching tenantId status).map
        Backup.createdAt) := by
  have hnodup : (((stateAfter uuid (.initial db replicas) p).store.db.matching tenantId status).map
      fun r => (r.id, r.createdAt)).Nodup := by
    refine List.Nodup.of_map Prod.fst ?_
    rw [List.map_map]
    exact matching_nodup _
  have hsubset : (((stateAfter uuid (.initial db replicas) p).store.db.matching tenantId status).map
      fun r => (r.id, r.createdAt)) ⊆
      ((stateAfter uuid (.initial db replicas) q).store.db.matching tenantId status).map
        fun r => (r.id, r.createdAt) := by
    intro x hx
    obtain ⟨r, hr, rfl⟩ := List.mem_map.mp hx
    obtain ⟨r', hr', hid, hcreated⟩ := h.subset hpq List.prefix_rfl hr
    exact List.mem_map.mpr ⟨r', hr', by rw [hid, hcreated]⟩
  obtain ⟨l, hperm, hsub⟩ := List.Nodup.subperm hnodup hsubset
  refine ⟨l.map Prod.snd, ?_, ?_⟩
  · have hmap := hperm.map Prod.snd
    rwa [List.map_map] at hmap
  · have hmap := hsub.map Prod.snd
    rwa [List.map_map] at hmap

end Meantime

/-! ### The rows that were there -/

section There

variable {uuid : UuidParser} {db : Table} {replicas : ℕ → Replica} {es : List Event} {tenantId : Uuid}
  {status : Option String} {limit : ℤ} {n : ℕ} {page : ℕ → PageRead} {r : Backup}

/-- The list of the tenant after some events. -/
abbrev listed (uuid : UuidParser) (db : Table) (replicas : ℕ → Replica) (tenantId : Uuid)
    (status : Option String) (es : List Event) : List Backup :=
  (stateAfter uuid (.initial db replicas) es).store.db.matching tenantId status

/-- No other row of the list has been created at the same instant. -/
theorem sharing_le_one {t : Table}
    (halone : ∀ b ∈ t.matching tenantId status, b.createdAt = r.createdAt → b.id = r.id) :
    sharing Backup.createdAt (t.matching tenantId status) r ≤ 1 := by
  have hnodup : (((t.matching tenantId status).filter fun b => b.createdAt = r.createdAt).map
      Backup.id).Nodup := (matching_nodup t).sublist (List.filter_sublist.map _)
  have hsubset : ((t.matching tenantId status).filter fun b => b.createdAt = r.createdAt).map
      Backup.id ⊆ [r.id] := by
    intro x hx
    obtain ⟨b, hb, rfl⟩ := List.mem_map.mp hx
    obtain ⟨hb, hcreated⟩ := List.mem_filter.mp hb
    rw [halone b hb (of_decide_eq_true hcreated)]
    exact List.mem_cons_self
  have hlength := (List.Nodup.subperm hnodup hsubset).length_le
  rwa [List.length_map, ← List.countP_eq_length_filter] at hlength

/-- The page shows the row exactly if its place falls on the page. -/
theorem shows_iff {t : Table} {i : ℕ} {rows : List Backup} {r' : Backup}
    (hrows : t.ShowsPage (pageParams status limit i) tenantId rows)
    (hr' : r' ∈ t.matching tenantId status) (hid : r'.id = r.id) (hcreated : r'.createdAt = r.createdAt)
    (halone : sharing Backup.createdAt (t.matching tenantId status) r ≤ 1) :
    r.id ∈ rows.map Backup.id ↔
      i * pageSize limit ≤ ahead Backup.createdAt (t.matching tenantId status) r ∧
        ahead Backup.createdAt (t.matching tenantId status) r < (i + 1) * pageSize limit := by
  obtain ⟨order, rfl⟩ := hrows
  have hdescending := order.descending (t.matching tenantId status)
  have hpage : t.page order tenantId status (clamp limit 1 100)
      (max (pageParams status limit i).offset 0) =
        pageAt (pageSize limit) i (order.sort (t.matching tenantId status)) := by
    rw [← page_eq_pageAt, pageParams, max_eq_left (Int.natCast_nonneg _)]
  rw [← ahead_congr hcreated, ← hdescending.mem_pageAt hr' (by rwa [sharing_congr hcreated])]
  show r.id ∈ (t.page order tenantId status (clamp limit 1 100) _).map Backup.id ↔ _
  rw [hpage]
  constructor
  · intro hmem
    obtain ⟨b, hb, hbid⟩ := List.mem_map.mp hmem
    have hb' : b ∈ t.matching tenantId status :=
      (order.perm _).mem_iff.mp (List.mem_of_mem_drop (List.mem_of_mem_take hb))
    have heq : b = r' :=
      List.inj_on_of_nodup_map (matching_nodup t) hb' hr' (hbid.trans hid.symm)
    rwa [← heq]
  · exact fun hmem => List.mem_map.mpr ⟨r', hmem, hid⟩

/-- The moments at which the pages of a walk have been read. -/
theorem WalksThrough.moments
    (h : WalksThrough uuid (.initial db replicas) es tenantId status limit n page) :
    ∃ p : ℕ → List Event, ∀ i ≤ n, (page i).sent <+: p i ∧ p i <+: (page i).received ∧
      (stateAfter uuid (.initial db replicas) (p i)).store.db.ShowsPage (pageParams status limit i)
        tenantId (page i).rows ∧
      ∃ q, p i <+: q ∧ q <+: (page i).received ∧
        (page i).total = (listed uuid db replicas tenantId status q).length := by
  have hpage : ∀ i, ∃ p, i ≤ n → (page i).sent <+: p ∧ p <+: (page i).received ∧
      (stateAfter uuid (.initial db replicas) p).store.db.ShowsPage (pageParams status limit i)
        tenantId (page i).rows ∧
      ∃ q, p <+: q ∧ q <+: (page i).received ∧
        (page i).total = (listed uuid db replicas tenantId status q).length := by
    intro i
    by_cases hi : i ≤ n
    · obtain ⟨p, q, hsent, hpq, hreceived, hrows, htotal⟩ := (h.reads i hi).moments
      exact ⟨p, fun _ => ⟨hsent, hpq.trans hreceived, hrows, q, hpq, hreceived, htotal⟩⟩
    · exact ⟨[], fun hle => absurd hle hi⟩
  choose p hp using hpage
  exact ⟨p, hp⟩

/-- The pages are asked for one after the other. -/
theorem WalksThrough.sent_le
    (h : WalksThrough uuid (.initial db replicas) es tenantId status limit n page) {i j : ℕ}
    (hij : i ≤ j) (hj : j ≤ n) : (page i).sent <+: (page j).sent := by
  induction j, hij using Nat.le_induction with
  | base => exact List.prefix_rfl
  | succ j _ ih =>
      exact (ih (by omega)).trans ((h.reads j (by omega)).order.trans (h.inTurn j (by omega)))

theorem WalksThrough.received_le
    (h : WalksThrough uuid (.initial db replicas) es tenantId status limit n page) {i : ℕ}
    (hi : i ≤ n) : (page i).received <+: (page n).received := by
  rcases Nat.lt_or_eq_of_le hi with hlt | rfl
  · exact (h.inTurn i hlt).trans ((h.sent_le (by omega) le_rfl).trans (h.reads n le_rfl).order)
  · exact List.prefix_rfl

/-- **A walk misses nothing.** A client asks for one page after the other and
gets each of them from the database, while the backups of the tenant are
created, patched and reported on, and none of them leaves the list. Each row that was there in the beginning, if no
other has been created at the same instant, is on one of the pages, and it is
on at most as many more as there are more rows in the end. -/
theorem walk_misses_nothing
    (h : WalksThrough uuid (.initial db replicas) es tenantId status limit n page)
    (hstay : NoneLeavesBetween uuid (.initial db replicas) tenantId status (page 0).sent
      (page n).received)
    (hr : r ∈ listed uuid db replicas tenantId status (page 0).sent)
    (halone : ∀ b ∈ listed uuid db replicas tenantId status (page n).received,
      b.createdAt = r.createdAt → b.id = r.id) :
    (∃ i ≤ n, (page i).Shows r.id) ∧
      ((List.range (n + 1)).countP fun i => (page i).Shows r.id) +
          (listed uuid db replicas tenantId status (page 0).sent).length ≤
        1 + (listed uuid db replicas tenantId status (page n).received).length := by
  obtain ⟨p, hp⟩ := h.moments
  have hfrom : ∀ i ≤ n, (page 0).sent <+: p i := fun i hi =>
    (h.sent_le (Nat.zero_le i) hi).trans (hp i hi).1
  have hto : ∀ i ≤ n, p i <+: (page n).received := fun i hi => (hp i hi).2.1.trans (h.received_le hi)
  have hnext : ∀ i < n, p i <+: p (i + 1) := fun i hi =>
    (hp i hi.le).2.1.trans ((h.inTurn i hi).trans (hp (i + 1) hi).1)
  have hmore : ∀ m m', (page 0).sent <+: m → m' <+: (page n).received → m <+: m' →
      ((listed uuid db replicas tenantId status m).map Backup.createdAt).Subperm
        ((listed uuid db replicas tenantId status m').map Backup.createdAt) :=
    fun m m' hm hm' hle => (hstay.mono hm hm').subperm hle
  let place i := ahead Backup.createdAt (listed uuid db replicas tenantId status (p i)) r
  have hgrow : ∀ i < n, place i ≤ place (i + 1) := fun i hi =>
    ahead_mono (hmore _ _ (hfrom i hi.le) (hto (i + 1) hi) (hnext i hi)) r
  have hshows : ∀ i ≤ n, (page i).Shows r.id ↔ Meets (pageSize limit) place i := by
    intro i hi
    obtain ⟨r', hr', hid, hcreated⟩ := hstay.subset (hfrom i hi) (hto i hi) hr
    refine shows_iff (hp i hi).2.2.1 hr' hid hcreated ?_
    exact (sharing_mono (hmore _ _ (hfrom i hi) List.prefix_rfl (hto i hi)) r).trans
      (sharing_le_one halone)
  constructor
  · have hlast : place n < (n + 1) * pageSize limit := by
      obtain ⟨q, hpq, hq, htotal⟩ := (hp n le_rfl).2.2.2
      obtain ⟨r', hr', -, hcreated⟩ := hstay.subset (hfrom n le_rfl) (hto n le_rfl) hr
      have hlength := (hmore _ _ (hfrom n le_rfl) hq hpq).length_le
      have hplace : place n < (listed uuid db replicas tenantId status (p n)).length := by
        show ahead _ _ _ < _
        rw [← ahead_congr hcreated]
        exact ahead_lt_length hr'
      have htotal' := h.last
      rw [htotal] at htotal'
      simp only [List.length_map] at hlength
      omega
    obtain ⟨i, hi, hmeets⟩ := exists_meets hgrow hlast
    exact ⟨i, hi, (hshows i hi).mpr hmeets⟩
  · have hcount : ((List.range (n + 1)).countP fun i => (page i).Shows r.id) =
        countMeetings (pageSize limit) place n := by
      refine List.countP_congr fun i hi => ?_
      have := hshows i (by simpa [Nat.lt_succ_iff] using hi)
      simpa using this
    have hmeetings := countMeetings_le (k := pageSize limit) hgrow
    have hstart := ahead_mono (hmore _ _ List.prefix_rfl (hto 0 (Nat.zero_le n))
      (hfrom 0 (Nat.zero_le n))) r
    have hadded := ahead_add_length_le (hmore _ _ List.prefix_rfl (hto n le_rfl) (hfrom n le_rfl)) r
    have hrest := (hmore _ _ (hfrom n le_rfl) List.prefix_rfl (hto n le_rfl)).length_le
    simp only [List.length_map] at hrest
    rw [hcount]
    show countMeetings (pageSize limit) place n + _ ≤ _
    have hn : place n = ahead Backup.createdAt (listed uuid db replicas tenantId status (p n)) r := rfl
    have h0 : place 0 = ahead Backup.createdAt (listed uuid db replicas tenantId status (p 0)) r := rfl
    omega

end There

/-! ### A row between the pages -/

section Stroll

def aged (id : ℕ) (created : Timestamp) : Backup :=
  ⟨⟨id⟩, ⟨1⟩, "/data", 0, "pending", false, created, created⟩

def twoRows : Table := ⟨[aged 7 1, aged 8 0], by decide, by decide⟩

def askList (seq : ℕ) (i : ℕ) : List Event :=
  .start 0 seq ⟨"user", ⟨1⟩, [], 0, 0⟩ (.list (pageParams none 1 i)) ⟨⟨0⟩, 0⟩ :: steps seq 4

/-- Backup `9` is created between the first page and the second. -/
def stroll : List Event :=
  askList 0 0 ++ .start 0 1 ⟨"user", ⟨1⟩, [], 0, 0⟩ (.create ⟨"/data", false⟩) ⟨⟨9⟩, 2⟩ :: steps 1 2 ++
    askList 2 1 ++ askList 3 2

def strollPage : ℕ → PageRead
  | 0 => ⟨⟨⟨1⟩, 0⟩, [], stroll.take 4, [aged 7 1], 2⟩
  | 1 => ⟨⟨⟨1⟩, 2⟩, stroll.take 8, stroll.take 12, [aged 7 1], 3⟩
  | _ => ⟨⟨⟨1⟩, 3⟩, stroll.take 13, stroll.take 17, [aged 8 0], 3⟩

def strollState : State := .initial twoRows fun _ => ⟨⟨.noop, true⟩, .default⟩

/-- An observation of a request that has found a page in the cache. -/
def Obs.cacheHit : Obs → Bool
  | .performed _ (.redis (.get _)) (.ok (some _)) => true
  | _ => false

/-- Nothing has been read from the cache. -/
theorem not_performed_get {uuid : UuidParser} {s : State} {es : List Event} {id : ReqId}
    (h : ((system uuid).trace s es).any Obs.cacheHit = false) (m : List Event) (key : Key)
    (v : CacheValue) : ¬ Performed uuid s es id m (.redis (.get key)) (.ok (some v)) := by
  intro hperformed
  obtain ⟨env, ⟨rest, rfl⟩, hobs⟩ := hperformed.event
  have hmem : .performed id (.redis (.get key)) (.ok (some v)) ∈
      (system uuid).trace s (m ++ [.step id env] ++ rest) := by
    rw [Machine.trace_append, Machine.trace_concat]
    exact List.mem_append_left _ (List.mem_append_right _ hobs)
  rw [List.any_eq_true.mpr ⟨_, hmem, rfl⟩] at h
  cases h

/-- What is in the list after some of the events is in it after one more. -/
theorem noneLeavesBetween_of_take {uuid : UuidParser} {s : State} {tenantId : Uuid}
    {status : Option String} {q : List Event}
    (h : ∀ i < q.length, ∀ r ∈ (stateAfter uuid s (q.take i)).store.db.matching tenantId status,
      ∃ r' ∈ (stateAfter uuid s (q.take (i + 1))).store.db.matching tenantId status, r'.id = r.id)
    (p : List Event) : NoneLeavesBetween uuid s tenantId status p q := by
  intro m e _ hme
  have hlt : m.length < q.length := by
    have hlength := hme.length_le
    rw [List.length_append, List.length_singleton] at hlength
    omega
  have hm : q.take m.length = m := (List.prefix_iff_eq_take.mp ((List.prefix_append m [e]).trans hme)).symm
  have hme' : q.take (m.length + 1) = m ++ [e] := by
    have := (List.prefix_iff_eq_take.mp hme).symm
    rwa [List.length_append, List.length_singleton] at this
  have hstep := h m.length hlt
  rw [hm, hme', stateAfter_concat] at hstep
  exact hstep

theorem walk_misses_nothing_stroll :
    (∃ i ≤ 2, (strollPage i).Shows ⟨8⟩) ∧
      ((List.range 3).countP fun i => (strollPage i).Shows ⟨8⟩) +
          (listed .hyphenated twoRows (fun _ => ⟨⟨.noop, true⟩, .default⟩) ⟨1⟩ none []).length ≤
        1 + (listed .hyphenated twoRows (fun _ => ⟨⟨.noop, true⟩, .default⟩) ⟨1⟩ none
          (stroll.take 17)).length := by
  have hwalk : WalksThrough .hyphenated strollState stroll ⟨1⟩ none 1 2 strollPage := by
    refine ⟨fun i hi => ?_, fun i hi => ?_, by decide⟩
    · match i, hi with
      | 0, _ => exact ⟨rfl, List.nil_prefix, rfl, ⟨_, ⟨stroll.drop 5, rfl⟩, List.mem_singleton.mpr rfl⟩,
          fun m rows total => not_performed_get rfl m _ _⟩
      | 1, _ => exact ⟨rfl, ⟨(stroll.take 12).drop 8, rfl⟩, rfl, ⟨_, ⟨stroll.drop 13, rfl⟩,
          List.mem_singleton.mpr rfl⟩, fun m rows total => not_performed_get rfl m _ _⟩
      | 2, _ => exact ⟨rfl, ⟨(stroll.take 17).drop 13, rfl⟩, rfl, ⟨_, ⟨stroll.drop 18, rfl⟩,
          List.mem_singleton.mpr rfl⟩, fun m rows total => not_performed_get rfl m _ _⟩
    · match i, hi with
      | 0, _ => exact ⟨(stroll.take 8).drop 4, rfl⟩
      | 1, _ => exact ⟨(stroll.take 13).drop 12, rfl⟩
  have hstay : NoneLeavesBetween .hyphenated strollState ⟨1⟩ none [] (stroll.take 17) := by
    refine noneLeavesBetween_of_take ?_ _
    decide +kernel
  have hthere : aged 8 0 ∈ listed .hyphenated twoRows (fun _ => ⟨⟨.noop, true⟩, .default⟩) ⟨1⟩ none
      [] := by decide
  refine walk_misses_nothing hwalk hstay hthere ?_
  decide +kernel

end Stroll

end BackupService
