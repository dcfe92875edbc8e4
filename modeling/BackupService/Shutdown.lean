import BackupService.Startup

/-!
How a process comes to its end.

A process that returns without an error leaves nothing behind: every request
it has taken in has been answered or given up by its client, and every
callback has been executed or given up by its worker (`graceful_shutdown`). It
is only by being killed, or by failing before its HTTP server is up, that a
process takes work with it.

And a process that has been told to stop can always come to that end, whatever
state it is in and whatever comes of its operations (`shutdown_completes`): the
two servers do not wait for each other in a circle.
-/

namespace BackupService

open Lib

variable {d : Deployment} {db db₀ : Schema} {table : Table} {s : Fleet} {i n k : ℕ} {v : HttpVisit}

/-! ### What is left of `main` -/

namespace MainStage

/-- What `main` does from a stage on, once its servers are up. -/
def ending : MainStage → MainProgram
  | accepting => .op .served fun _ => .op .stopGrpc fun _ => .op .joinGrpc fun _ =>
      .op .dropConnection fun _ => .ret (.ok ())
  | drained => .op .stopGrpc fun _ => .op .joinGrpc fun _ => .op .dropConnection fun _ => .ret (.ok ())
  | told => .op .joinGrpc fun _ => .op .dropConnection fun _ => .ret (.ok ())
  | joined => .op .dropConnection fun _ => .ret (.ok ())
  | _ => .ret (.ok ())

end MainStage

section Ending

variable {parseAddr : String → Option SocketAddr} {site : Site} {rest : MainProgram}

open Program

theorem obeys_released (h : Obeys (staging parseAddr site) Staged .released rest) :
    rest = MainStage.ending .released := by
  cases rest with
  | ret r =>
      cases r with
      | ok _ => rfl
      | error e => exact absurd h id
  | op o k =>
      have hdue := h.1.2
      cases o with
      | migration o =>
          cases o with
          | execute => cases hdue.1
          | insertVersion => cases hdue.1
          | createVersions | selectApplied => cases hdue
      | serve => cases hdue.1
      | _ => cases hdue

/-- At a late stage one operation is due. -/
theorem due_late {g : MainStage} {o : MainOp} (hdue : o.DueAt parseAddr site g) :
    (g = .accepting → o = .served) ∧ (g = .drained → o = .stopGrpc) ∧ (g = .told → o = .joinGrpc) ∧
      (g = .joined → o = .dropConnection) := by
  cases o with
  | migration o =>
      cases o with
      | execute => obtain ⟨rfl, -⟩ := hdue; exact ⟨nofun, nofun, nofun, nofun⟩
      | insertVersion => obtain ⟨rfl, -⟩ := hdue; exact ⟨nofun, nofun, nofun, nofun⟩
      | createVersions | selectApplied => cases hdue; exact ⟨nofun, nofun, nofun, nofun⟩
  | serve => obtain ⟨rfl, -⟩ := hdue; exact ⟨nofun, nofun, nofun, nofun⟩
  | served => cases hdue; exact ⟨fun _ => rfl, nofun, nofun, nofun⟩
  | stopGrpc => cases hdue; exact ⟨nofun, fun _ => rfl, nofun, nofun⟩
  | joinGrpc => cases hdue; exact ⟨nofun, nofun, fun _ => rfl, nofun⟩
  | dropConnection => cases hdue; exact ⟨nofun, nofun, nofun, fun _ => rfl⟩
  | _ => cases hdue; exact ⟨nofun, nofun, nofun, nofun⟩

theorem obeys_joined (h : Obeys (staging parseAddr site) Staged .joined rest) :
    rest = MainStage.ending .joined := by
  cases rest with
  | ret r => cases r <;> cases h
  | op o k =>
      obtain rfl := (due_late h.1.2).2.2.2 rfl
      exact congrArg (Program.op _) (funext fun _ => obeys_released (h.2 () trivial))

theorem obeys_told (h : Obeys (staging parseAddr site) Staged .told rest) :
    rest = MainStage.ending .told := by
  cases rest with
  | ret r => cases r <;> cases h
  | op o k =>
      obtain rfl := (due_late h.1.2).2.2.1 rfl
      exact congrArg (Program.op _) (funext fun _ => obeys_joined (h.2 () trivial))

theorem obeys_drained (h : Obeys (staging parseAddr site) Staged .drained rest) :
    rest = MainStage.ending .drained := by
  cases rest with
  | ret r => cases r <;> cases h
  | op o k =>
      obtain rfl := (due_late h.1.2).2.1 rfl
      exact congrArg (Program.op _) (funext fun _ => obeys_told (h.2 () trivial))

theorem obeys_accepting (h : Obeys (staging parseAddr site) Staged .accepting rest) :
    rest = MainStage.ending .accepting := by
  cases rest with
  | ret r => cases r <;> cases h
  | op o k =>
      obtain rfl := (due_late h.1.2).1 rfl
      exact congrArg (Program.op _) (funext fun _ => obeys_drained (h.2 () trivial))

end Ending

/-! ### Requests and callbacks of a process -/

/-- The request has been answered, or given up by its client. -/
def Concluded (seen : List FleetObs) (n : ℕ) : Prop :=
  (∃ response, .shown (.answered n response) ∈ seen) ∨ .left n ∈ seen

/-- The callback has been executed, or given up by its worker. -/
def CalledBack (seen : List FleetObs) (i k : ℕ) : Prop :=
  .executed i k ∈ seen ∨ .forgotten i k ∈ seen

/-- The process has ended otherwise than by returning `Ok`. -/
def ServiceProcess.Failed (v : ServiceProcess) : Prop :=
  ∃ result, v.main = .ended result ∧ result ≠ some (.ok ())

section Steps

variable {j : ℕ}

theorem Concluded.mono {seen seen' : List FleetObs} (h : Concluded seen n) (hseen : seen ⊆ seen') :
    Concluded seen' n :=
  h.imp (Exists.imp fun _ hr => hseen hr) fun hl => hseen hl

theorem CalledBack.mono {seen seen' : List FleetObs} (h : CalledBack seen i k) (hseen : seen ⊆ seen') :
    CalledBack seen' i k :=
  h.imp (fun he => hseen he) fun hf => hseen hf

/-- After a step the request is on its way, or has been concluded, or its
process has failed. -/
def Fares (n replica : ℕ) (out : Fleet × List FleetObs) : Prop :=
  (∃ v, out.1.gateway.visits n = some v ∧ v.replica = replica) ∨ Concluded out.2 n ∨
    (out.1.services replica).Failed

theorem fares_same (hvisit : s.gateway.visits n = some v) {out : Fleet × List FleetObs}
    (hout : out.1.gateway = s.gateway) : Fares n v.replica out :=
  .inl ⟨v, by rw [hout, hvisit], rfl⟩

/-- A process that ends takes its own requests with it, and no others. -/
theorem Fleet.Sound.fares_exit (h : s.Sound d db₀) (hvisit : s.gateway.visits n = some v) {i : ℕ}
    {result : Option (Except MainError Unit)} (hresult : v.replica = i → result ≠ some (.ok ())) :
    Fares n v.replica (s.exit d i result, []) := by
  by_cases hi : v.replica = i
  · exact .inr (.inr ⟨result, by rw [hi, Fleet.exit_self], hresult hi⟩)
  · refine .inl ⟨v, ?_, rfl⟩
    have hother : n ∉ s.gateway.visitsOf i := by
      intro hmem
      obtain ⟨v', hv', hreplica⟩ := h.attended.mem_visitsOf.mp hmem
      obtain rfl := Option.some.inj (hvisit.symm.trans hv')
      exact hi hreplica
    rw [show (s.exit d i result).gateway.visits n = _ from
      Gateway.visits_abandoned d.jwt d.uuid (s.gateway.visitsOf i), if_neg hother, hvisit]

/-- Where `main` returns `Ok` the process has no requests and no callbacks. -/
theorem Fleet.Sound.at_return (h : s.Sound d db₀)
    (hmain : (s.services i).main = .running (.ret (.ok ()))) :
    (s.services i).http = .drained ∧ (s.services i).calls = [] := by
  have hprocess := h.processes i
  rw [ServiceProcess.Sound, hmain] at hprocess
  obtain ⟨g, hobeys, -, hat⟩ := hprocess
  obtain rfl : g = .released := hobeys
  refine ⟨hat.http, ?_⟩
  by_contra hcalls
  have hfinished : (s.services i).grpc = .finished := hat.grpc
  rw [hat.calls hcalls] at hfinished
  cases hfinished

/-- **What becomes of a request in a step.** -/
theorem Fleet.Sound.fares (h : s.Sound d db₀) (hvisit : s.gateway.visits n = some v)
    (e : FleetEvent) : Fares n v.replica ((fleet d).step s e) := by
  have heffect := Fleet.effect_step d s e
  generalize (fleet d).step s e = out at heffect ⊢
  cases heffect with
  | quiet hquiet => exact fares_same hvisit hquiet.gateway
  | exit hmain hresult =>
      refine h.fares_exit hvisit fun hi hok => ?_
      -- A process that returns `Ok` has no requests.
      have hhttp := h.visits n v hvisit
      rw [hresult hok] at hmain
      rw [hi, (h.at_return hmain).1] at hhttp
      rcases hhttp with hhttp | hhttp <;> cases hhttp
  | @http e htakes =>
      rcases h.attended.faresOn d.jwt d.uuid hvisit e with hstill | ⟨-, ⟨response, hanswered⟩ | rfl⟩
      · exact .inl hstill
      · exact .inr (.inl (.inl ⟨response, List.mem_append_left _ (List.mem_map_of_mem hanswered)⟩))
      · refine .inr (.inl (.inr (List.mem_append_right _ ?_)))
        simp [Fleet.leaves, hvisit]
  | @execute i k rpc oracle env hcall =>
      rcases h.attended.faresOn_inside d.uuid hvisit (.rpc rpc oracle env) with
        hstill | ⟨-, ⟨response, hanswered⟩ | hno⟩
      · exact .inl hstill
      · exact .inr (.inl (.inl ⟨response, List.mem_cons_of_mem _ (List.mem_map_of_mem hanswered)⟩))
      · cases hno
  | call | forget => exact fares_same hvisit rfl

/-- The same of a callback. -/
def CallFares (i k : ℕ) (out : Fleet × List FleetObs) : Prop :=
  (∃ rpc, (k, rpc) ∈ (out.1.services i).calls) ∨ CalledBack out.2 i k ∨ (out.1.services i).Failed

theorem callFares_same {rpc : Rpc} (hcall : (k, rpc) ∈ (s.services i).calls)
    {out : Fleet × List FleetObs} (hout : (out.1.services i).calls = (s.services i).calls) :
    CallFares i k out := .inl ⟨rpc, hout ▸ hcall⟩

theorem callFares_exit {rpc : Rpc} (hcall : (k, rpc) ∈ (s.services i).calls)
    {result : Option (Except MainError Unit)} (hresult : i = j → result ≠ some (.ok ())) :
    CallFares i k (s.exit d j result, []) := by
  by_cases hi : i = j
  · exact .inr (.inr ⟨result, by rw [hi, Fleet.exit_self], hresult hi⟩)
  · exact callFares_same hcall (by rw [Fleet.exit_of_ne hi])

/-- A callback that is taken off the list is seen to be. -/
theorem callFares_filter {rpc : Rpc} (hcall : (k, rpc) ∈ (s.services i).calls) {m : ℕ} {s' : Fleet}
    (hservices : s'.services = s.services) {obs : List FleetObs}
    (hobs : i = j → k = m → CalledBack obs i k) :
    CallFares i k (s'.modify j fun v => { v with calls := v.calls.filter fun c => c.1 ≠ m }, obs) := by
  by_cases hi : i = j
  · by_cases hk : k = m
    · exact .inr (.inl (hobs hi hk))
    · refine .inl ⟨rpc, ?_⟩
      rw [← hi, Fleet.modify_self, hservices]
      exact List.mem_filter.mpr ⟨hcall, by simpa using hk⟩
  · refine callFares_same hcall ?_
    rw [Fleet.modify_of_ne hi, hservices]

/-- **What becomes of a callback in a step.** -/
theorem Fleet.Sound.call_fares (h : s.Sound d db₀) {rpc : Rpc}
    (hcall : (k, rpc) ∈ (s.services i).calls) (e : FleetEvent) :
    CallFares i k ((fleet d).step s e) := by
  have heffect := Fleet.effect_step d s e
  generalize (fleet d).step s e = out at heffect ⊢
  cases heffect with
  | quiet hquiet => exact callFares_same hcall (hquiet.calls i)
  | exit hmain hresult =>
      refine callFares_exit hcall fun hi hok => ?_
      rw [hresult hok] at hmain
      rw [hi, (h.at_return hmain).2] at hcall
      cases hcall
  | http => exact callFares_same hcall rfl
  | @call j rpc' =>
      refine .inl ⟨rpc, ?_⟩
      by_cases hi : i = j
      · rw [← hi, Fleet.modify_self]
        exact List.mem_append_left _ hcall
      · rw [Fleet.modify_of_ne hi]
        exact hcall
  | execute =>
      refine callFares_filter hcall rfl ?_
      rintro rfl rfl
      exact .inl List.mem_cons_self
  | forget =>
      refine callFares_filter hcall rfl ?_
      rintro rfl rfl
      exact .inr (List.mem_singleton_self _)

/-- A process that has ended stays as it is. -/
theorem ended_step {result : Option (Except MainError Unit)}
    (h : (s.services i).main = .ended result) (e : FleetEvent) :
    (((fleet d).step s e).1.services i).main = .ended result := by
  have hmodify : ∀ {j : ℕ} {s' : Fleet} {f : ServiceProcess → ServiceProcess},
      s'.services = s.services → (∀ v, (f v).main = v.main) →
      ((s'.modify j f).services i).main = .ended result := by
    intro j s' f hservices hf
    by_cases hi : i = j
    · rw [hi, Fleet.modify_self, hf, hservices, ← hi, h]
    · rw [Fleet.modify_of_ne hi, hservices, h]
  have heffect := Fleet.effect_step d s e
  generalize (fleet d).step s e = out at heffect ⊢
  cases heffect with
  | quiet hquiet => exact hquiet.ended h
  | @exit j rest result hmain hresult =>
      have hne : i ≠ j := by
        rintro rfl
        rw [h] at hmain
        cases hmain
      rw [Fleet.exit_of_ne hne, h]
  | http => exact h
  | call | execute | forget =>
      dsimp only
      exact hmodify rfl (by exact fun _ => rfl)

end Steps

/-! ### The end of a run -/

theorem run_ended {result : Option (Except MainError Unit)}
    (h : (s.services i).main = .ended result) (es : List FleetEvent) :
    (((fleet d).run s es).services i).main = .ended result :=
  Machine.run_invariant (I := fun s : Fleet => (s.services i).main = .ended result) _
    (fun _ e hs => ended_step hs e) h es

/-- A request at the end of a run. -/
theorem Fleet.Sound.fares_run (h : s.Sound d db₀) (hvisit : s.gateway.visits n = some v)
    (es : List FleetEvent) : Fares n v.replica ((fleet d).run s es, (fleet d).trace s es) := by
  induction es generalizing s v with
  | nil => exact fares_same hvisit rfl
  | cons e es ih =>
      rcases h.fares hvisit e with ⟨v', hstill, hreplica⟩ | hconcluded | ⟨result, hended, hresult⟩
      · rw [← hreplica]
        exact (ih (h.step e) hstill).imp id (Or.imp (·.mono (List.subset_append_right _ _)) id)
      · exact .inr (.inl (hconcluded.mono (List.subset_append_left _ _)))
      · exact .inr (.inr ⟨result, run_ended hended es, hresult⟩)

theorem Fleet.Sound.call_fares_run (h : s.Sound d db₀) {rpc : Rpc}
    (hcall : (k, rpc) ∈ (s.services i).calls) (es : List FleetEvent) :
    CallFares i k ((fleet d).run s es, (fleet d).trace s es) := by
  induction es generalizing s rpc with
  | nil => exact callFares_same hcall rfl
  | cons e es ih =>
      rcases h.call_fares hcall e with ⟨rpc', hstill⟩ | hcalled | ⟨result, hended, hresult⟩
      · exact (ih (h.step e) hstill).imp id (Or.imp (·.mono (List.subset_append_right _ _)) id)
      · exact .inr (.inl (hcalled.mono (List.subset_append_left _ _)))
      · exact .inr (.inr ⟨result, run_ended hended es, hresult⟩)

/-- A process that has ended has nothing left. -/
theorem Fleet.Sound.ended (h : s.Sound d db₀) {result : Option (Except MainError Unit)}
    (hmain : (s.services i).main = .ended result) :
    (s.services i).calls = [] ∧ (∀ n v, s.gateway.visits n = some v → v.replica ≠ i) ∧
      ∀ id th, s.gateway.api.inflight id = some th → th.replica ≠ i := by
  have hprocess := h.processes i
  rw [ServiceProcess.Sound, hmain] at hprocess
  have hvisits : ∀ n v, s.gateway.visits n = some v → v.replica ≠ i := by
    rintro n v hvisit rfl
    have hhttp := h.visits n v hvisit
    rw [hprocess] at hhttp
    rcases hhttp with hhttp | hhttp <;> cases hhttp
  refine ⟨by rw [hprocess], hvisits, fun id th hth => ?_⟩
  obtain ⟨v, hvisit, -, hreplica⟩ := h.attended.request hth
  exact hreplica ▸ hvisits _ v hvisit

/-- **A process that returns `Ok` has done its work.** Every request that it
has ever had on its way has been answered or given up by its client, every
callback that it has taken has been executed or given up by its worker, and it
leaves no request, no handler and no callback behind. -/
theorem graceful_shutdown (es : List FleetEvent)
    (hend : (((fleet d).run (.initial d db table) es).services i).main = .ended (some (.ok ()))) :
    (∀ pre, pre <+: es →
      (∀ n v, ((fleet d).run (.initial d db table) pre).gateway.visits n = some v → v.replica = i →
        Concluded ((fleet d).trace (.initial d db table) es) n) ∧
      ∀ k rpc, (k, rpc) ∈ (((fleet d).run (.initial d db table) pre).services i).calls →
        CalledBack ((fleet d).trace (.initial d db table) es) i k) ∧
      (∀ n v, ((fleet d).run (.initial d db table) es).gateway.visits n = some v → v.replica ≠ i) ∧
      (∀ id th, ((fleet d).run (.initial d db table) es).gateway.api.inflight id = some th →
        th.replica ≠ i) ∧
      (((fleet d).run (.initial d db table) es).services i).calls = [] := by
  obtain ⟨hcalls, hvisits, hthreads⟩ := (fleet_sound d db table es).ended hend
  refine ⟨?_, hvisits, hthreads, hcalls⟩
  rintro pre ⟨rest, rfl⟩
  have hsound := fleet_sound d db table pre
  rw [Machine.run_append] at hend hcalls hvisits
  rw [Machine.trace_append]
  have hnot : ∀ {w : ServiceProcess}, w.main = .ended (some (.ok ())) → ¬ w.Failed := by
    rintro w hw ⟨result, hresult, hne⟩
    rw [hw] at hresult
    exact hne (ServiceMain.ended.inj hresult).symm
  refine ⟨fun n v hvisit hi => ?_, fun k rpc hcall => ?_⟩
  · rcases hsound.fares_run hvisit rest with ⟨v', hv', hreplica⟩ | hconcluded | hfailed
    · exact absurd (hreplica.trans hi) (hvisits n v' hv')
    · exact hconcluded.mono (List.subset_append_right _ _)
    · exact absurd (hi ▸ hfailed) (hnot hend)
  · rcases hsound.call_fares_run hcall rest with ⟨rpc', hstill⟩ | hcalled | hfailed
    · rw [hcalls] at hstill
      cases hstill
    · exact hcalled.mono (List.subset_append_right _ _)
    · exact absurd hfailed (hnot hend)

/-! ### To the end -/

/-- What can be done for a process that is to end. -/
inductive ShutdownMove
  | main
  | visit (n : ℕ) (m : VisitMove)
  | grpcBound
  | execute (k : ℕ)
  | grpcReturned
  deriving DecidableEq, Repr

/-- The events that can come of doing it for process `i`. -/
def ShutdownMove.outcome (i : ℕ) : ShutdownMove → FleetEvent → Prop
  | main, e => ∃ env, e = .main i env
  | visit n m, e => ∃ e', m.outcome n e' ∧ e = .http e'
  | grpcBound, e => ∃ ok, e = .grpcBound i ok
  | execute k, e => ∃ oracle env, e = .execute i k oracle env
  | grpcReturned, e => e = .grpcReturned i

theorem ShutdownMove.exists_outcome (i : ℕ) (m : ShutdownMove) : ∃ e, m.outcome i e := by
  cases m with
  | main => exact ⟨_, {}, rfl⟩
  | visit n m =>
      obtain ⟨e, he⟩ := m.exists_outcome n
      exact ⟨.http e, e, he, rfl⟩
  | grpcBound => exact ⟨_, true, rfl⟩
  | execute k => exact ⟨_, ⟨⟨0⟩, 0⟩, {}, rfl⟩
  | grpcReturned => exact ⟨_, rfl⟩

section Completion

variable {goal : Fleet → Prop}

/-- An operation of `main` that does not depend on anything. -/
theorem attains_main {o : MainOp} {k : o.Answer → MainProgram} {a : o.Answer} {s' : Fleet}
    (hmain : (s.services i).main = .running (.op o k))
    (hperform : ∀ env, s.perform d i env o = some (a, s'))
    (h : (fleet d).Attains (ShutdownMove.outcome i) goal
      (s'.modify i fun v => { v with main := .running (k a) })) :
    (fleet d).Attains (ShutdownMove.outcome i) goal s := by
  refine .move .main ?_
  rintro _ ⟨env, rfl⟩
  have hstep : s.stepMain d i env = s'.modify i fun v => { v with main := .running (k a) } := by
    simp only [Fleet.stepMain, hmain, hperform env]
  show Machine.Attains _ _ _ (s.stepMain d i env)
  rw [hstep]
  exact h

/-- The process has returned `Ok`. -/
def Fleet.Returned (i : ℕ) (s : Fleet) : Prop := (s.services i).main = .ended (some (.ok ()))

theorem attains_of_released (hmain : (s.services i).main = .running (MainStage.ending .released)) :
    (fleet d).Attains (ShutdownMove.outcome i) (Fleet.Returned i) s := by
  refine .move .main ?_
  rintro _ ⟨env, rfl⟩
  refine .done ?_
  have hexit : s.stepMain d i env = s.exit d i (some (.ok ())) := by
    simp only [Fleet.stepMain, hmain, MainStage.ending]
  show ((s.stepMain d i env).services i).main = _
  rw [hexit, Fleet.exit_self]

theorem attains_of_joined (hmain : (s.services i).main = .running (MainStage.ending .joined)) :
    (fleet d).Attains (ShutdownMove.outcome i) (Fleet.Returned i) s := by
  refine attains_main hmain (fun _ => rfl) (attains_of_released ?_)
  rw [Fleet.modify_self]
  rfl

/-- The gRPC server has been told to shut down. -/
theorem Fleet.Sound.at_told (h : s.Sound d db₀)
    (hmain : (s.services i).main = .running (MainStage.ending .told)) :
    (s.services i).told = true ∧ (s.services i).grpc ≠ .absent ∧
      ((s.services i).calls ≠ [] → (s.services i).grpc = .serving) := by
  have hprocess := h.processes i
  rw [ServiceProcess.Sound, hmain] at hprocess
  obtain ⟨g, hobeys, -, hat⟩ := hprocess
  obtain rfl : g = .told := hobeys.1.2
  exact ⟨hat.told, hat.grpc, hat.calls⟩

/-- The gRPC server has finished. -/
theorem attains_of_finished (hmain : (s.services i).main = .running (MainStage.ending .told))
    (hgrpc : (s.services i).grpc = .finished) :
    (fleet d).Attains (ShutdownMove.outcome i) (Fleet.Returned i) s := by
  have hperform : ∀ env, s.perform d i env .joinGrpc = some ((), s) := fun env => by
    simp only [Fleet.perform, hgrpc, if_true]
  refine attains_main hmain hperform ?_
  refine attains_of_joined ?_
  rw [Fleet.modify_self]
  rfl

/-- The gRPC server has no callback left. -/
theorem attains_of_idle (h : s.Sound d db₀)
    (hmain : (s.services i).main = .running (MainStage.ending .told))
    (hgrpc : (s.services i).grpc = .serving) (hcalls : (s.services i).calls = []) :
    (fleet d).Attains (ShutdownMove.outcome i) (Fleet.Returned i) s := by
  refine .move .grpcReturned ?_
  rintro _ rfl
  have hstep : ((fleet d).step s (.grpcReturned i)).1 = s.modify i fun v => { v with grpc := .finished } := by
    simp only [fleet, hgrpc, (h.at_told hmain).1, hcalls, and_self, if_true]
  rw [hstep]
  refine attains_of_finished ?_ ?_ <;> rw [Fleet.modify_self]
  exact hmain

/-- Callbacks that are being served can be executed, one after the other. -/
theorem attains_of_serving (h : s.Sound d db₀)
    (hmain : (s.services i).main = .running (MainStage.ending .told))
    (hgrpc : (s.services i).grpc = .serving) :
    (fleet d).Attains (ShutdownMove.outcome i) (Fleet.Returned i) s := by
  have hexecuted : (fleet d).Attains (ShutdownMove.outcome i)
      (fun s => (s.Sound d db₀ ∧ (s.services i).main = .running (MainStage.ending .told) ∧
        (s.services i).grpc = .serving) ∧ (s.services i).calls.length = 0) s := by
    refine Machine.attains_of_decreases (f := fun s : Fleet => (s.services i).calls.length)
      (I := fun s : Fleet => s.Sound d db₀ ∧ (s.services i).main = .running (MainStage.ending .told) ∧
        (s.services i).grpc = .serving) ?_ ⟨h, hmain, hgrpc⟩
    rintro s ⟨hs, hmain, hgrpc⟩ hpos
    obtain ⟨⟨k, rpc⟩, rest, hcalls⟩ := List.exists_cons_of_length_pos hpos
    refine .move (.execute k) ?_
    rintro _ ⟨oracle, env, rfl⟩
    have hsound := hs.step (.execute i k oracle env)
    revert hsound
    show (s.execute d i k oracle env).1.Sound d db₀ → Machine.Attains _ _ _ (s.execute d i k oracle env).1
    have hfind : (s.services i).calls.find? (fun c => c.1 = k) = some (k, rpc) := by simp [hcalls]
    simp only [Fleet.execute, hfind]
    generalize s.gateway.inside d.uuid (.rpc rpc oracle env) = out
    intro hsound
    refine .done ⟨⟨hsound, ?_, ?_⟩, ?_⟩
    · rw [Fleet.modify_self]
      exact hmain
    · rw [Fleet.modify_self]
      exact hgrpc
    · rw [Fleet.modify_self]
      show (List.filter _ (s.services i).calls).length < (s.services i).calls.length
      refine List.length_filter_lt_length_iff_exists.mpr ⟨(k, rpc), ?_, by simp⟩
      rw [hcalls]
      exact List.mem_cons_self
  refine hexecuted.bind ?_
  rintro s ⟨⟨hs, hmain, hgrpc⟩, hcalls⟩
  exact attains_of_idle hs hmain hgrpc (List.length_eq_zero_iff.mp hcalls)

/-- The gRPC server can be brought to its end. -/
theorem attains_of_told (h : s.Sound d db₀)
    (hmain : (s.services i).main = .running (MainStage.ending .told)) :
    (fleet d).Attains (ShutdownMove.outcome i) (Fleet.Returned i) s := by
  obtain ⟨-, hup, -⟩ := h.at_told hmain
  cases hgrpc : (s.services i).grpc with
  | absent => exact absurd hgrpc hup
  | finished => exact attains_of_finished hmain hgrpc
  | serving => exact attains_of_serving h hmain hgrpc
  | binding =>
      refine .move .grpcBound ?_
      rintro _ ⟨ok, rfl⟩
      have hsound := h.step (.grpcBound i ok)
      have hstep : ((fleet d).step s (.grpcBound i ok)).1 =
          s.modify i fun v => { v with grpc := if ok then .serving else .finished } := by
        simp only [fleet, hgrpc, if_true]
      rw [hstep] at hsound ⊢
      have hmain' : ((s.modify i fun v => { v with grpc := if ok then .serving else .finished }).services
          i).main = .running (MainStage.ending .told) := by rw [Fleet.modify_self]; exact hmain
      cases ok with
      | true => exact attains_of_serving hsound hmain' (by rw [Fleet.modify_self]; rfl)
      | false => exact attains_of_finished hmain' (by rw [Fleet.modify_self]; rfl)

theorem attains_of_drained (h : s.Sound d db₀)
    (hmain : (s.services i).main = .running (MainStage.ending .drained)) :
    (fleet d).Attains (ShutdownMove.outcome i) (Fleet.Returned i) s := by
  have hperform : s.perform d i {} .stopGrpc = some ((), s.modify i fun v => { v with told := true }) := rfl
  have hsound := h.perform hmain hperform
  refine attains_main (a := ()) hmain (fun _ => rfl) (attains_of_told hsound ?_)
  rw [Fleet.modify_self]
  rfl

/-- What is done for a request is done by the gateway alone. -/
theorem step_of_outcome {m : VisitMove} {e : GatewayEvent} (he : m.outcome n e) :
    ((fleet d).step s (.http e)).1 =
      { s with gateway := ((gateway d.jwt d.uuid).step s.gateway e).1 } := by
  have htakes : s.takes e = true := by
    cases m with
    | authenticate => obtain ⟨utc, rfl⟩ := he; rfl
    | count => obtain ⟨clock, rfl⟩ := he; rfl
    | dispatch => obtain ⟨oracle, rfl⟩ := he; rfl
    | work tenant => obtain ⟨env, rfl⟩ := he; rfl
  simp only [fleet, htakes, if_true]

theorem visitsOf_length_lt {s s' : Gateway} (harrivals : s'.arrivals = s.arrivals)
    (hothers : ∀ m, m ≠ n → s'.visits m = s.visits m) (hnone : s'.visits n = none)
    (hn : n ∈ s.visitsOf i) : (s'.visitsOf i).length < (s.visitsOf i).length := by
  have hfilter : s'.visitsOf i = (s.visitsOf i).filter fun m => m ≠ n := by
    simp only [Gateway.visitsOf, harrivals, List.filter_filter]
    refine List.filter_congr fun m _ => ?_
    by_cases hm : m = n
    · simp [hm, hnone]
    · simp [hm, hothers m hm]
  rw [hfilter]
  exact List.length_filter_lt_length_iff_exists.mpr ⟨n, hn, by simp⟩

/-- The requests of a process can be brought to their answers, one after the
other. -/
theorem attains_no_visits (h : s.Sound d db₀) :
    (fleet d).Attains (ShutdownMove.outcome i) (fun s' => (s'.Sound d db₀ ∧
      s'.services = s.services) ∧ (s'.gateway.visitsOf i).length = 0) s := by
  refine Machine.attains_of_decreases (f := fun s : Fleet => (s.gateway.visitsOf i).length)
    (I := fun s' : Fleet => s'.Sound d db₀ ∧ s'.services = s.services) ?_ ⟨h, rfl⟩
  rintro t ⟨ht, hservices⟩ hpos
  obtain ⟨n, rest, hvisits⟩ := List.exists_cons_of_length_pos hpos
  have hn : n ∈ t.gateway.visitsOf i := by rw [hvisits]; exact List.mem_cons_self
  obtain ⟨v, hvisit, -⟩ := ht.attended.mem_visitsOf.mp hn
  have hanswer := (ht.attended.attains_answer d.jwt d.uuid hvisit).keeps
    (I := fun g : Gateway => g.arrivals = t.gateway.arrivals ∧
      ∀ m, m ≠ n → g.visits m = t.gateway.visits m)
    (fun g m e hg he => ⟨(Gateway.arrivals_of_outcome he).trans hg.1,
      fun m' hm' => (Gateway.visits_of_outcome he hm').trans (hg.2 m' hm')⟩) ⟨rfl, fun _ _ => rfl⟩
  refine (Machine.Attains.lift (N := fleet d)
    (I := fun s' : Fleet => s'.Sound d db₀ ∧ s'.services = s.services) Fleet.gateway
    (ShutdownMove.visit n) ?_ hanswer ⟨ht, hservices⟩).mono ?_
  · rintro s' m _ ⟨hs', hsame⟩ ⟨e, he, rfl⟩
    refine ⟨⟨hs'.step _, ?_⟩, e, he, ?_⟩
    · rw [step_of_outcome he]
      exact hsame
    · rw [step_of_outcome he]
  · rintro s' ⟨⟨hnone, harrivals, hothers⟩, hs'⟩
    exact ⟨hs', visitsOf_length_lt harrivals hothers hnone hn⟩

theorem attains_of_accepting (h : s.Sound d db₀)
    (hmain : (s.services i).main = .running (MainStage.ending .accepting))
    (hhttp : (s.services i).http = .draining) :
    (fleet d).Attains (ShutdownMove.outcome i) (Fleet.Returned i) s := by
  refine (attains_no_visits h).bind ?_
  rintro s' ⟨⟨hs', hservices⟩, hnone⟩
  rw [← hservices] at hmain hhttp
  have hvisits : s'.gateway.visitsOf i = [] := List.length_eq_zero_iff.mp hnone
  have hperform : ∀ env, s'.perform d i env .served =
      some ((), s'.modify i fun v => { v with http := .drained }) := fun env => by
    simp only [Fleet.perform, hhttp, hvisits, and_self, if_true]
  have hsound := hs'.perform hmain (hperform {})
  refine attains_main (a := ()) hmain hperform (attains_of_drained hsound ?_)
  rw [Fleet.modify_self]
  rfl

/-- What a process that has been told to stop has left to do. -/
theorem Fleet.Sound.stopping (h : s.Sound d db₀)
    (hstop : (s.services i).http = .draining ∨ (s.services i).http = .drained) :
    ((s.services i).main = .running (MainStage.ending .accepting) ∧
        (s.services i).http = .draining) ∨
      (s.services i).main = .running (MainStage.ending .drained) ∨
      (s.services i).main = .running (MainStage.ending .told) ∨
      (s.services i).main = .running (MainStage.ending .joined) ∨
      (s.services i).main = .running (MainStage.ending .released) := by
  have hup : (s.services i).http ≠ .closed := by
    rcases hstop with hhttp | hhttp <;> exact hhttp.trans_ne (by decide)
  obtain ⟨rest, g, hmain, hobeys, -, hat⟩ := (h.processes i).running (.inl hup)
  have hhttp := hat.http
  rw [hmain]
  cases g with
  | unmigrated | installed | migrated | linked | spawned => exact absurd hhttp hup
  | listening =>
      rw [show (s.services i).http = .listening from hhttp] at hstop
      rcases hstop with hstop | hstop <;> cases hstop
  | accepting =>
      rw [obeys_accepting hobeys]
      refine .inl ⟨rfl, hstop.resolve_right fun hdrained => ?_⟩
      rw [hdrained] at hhttp
      rcases hhttp with hhttp | hhttp <;> cases hhttp
  | drained => exact .inr (.inl (by rw [obeys_drained hobeys]))
  | told => exact .inr (.inr (.inl (by rw [obeys_told hobeys])))
  | joined => exact .inr (.inr (.inr (.inl (by rw [obeys_joined hobeys]))))
  | released => exact .inr (.inr (.inr (.inr (by rw [obeys_released hobeys]))))

theorem Fleet.Sound.attains_returned (h : s.Sound d db₀)
    (hstop : (s.services i).http = .draining ∨ (s.services i).http = .drained) :
    (fleet d).Attains (ShutdownMove.outcome i) (Fleet.Returned i) s := by
  rcases h.stopping hstop with ⟨hmain, hhttp⟩ | hmain | hmain | hmain | hmain
  · exact attains_of_accepting h hmain hhttp
  · exact attains_of_drained h hmain
  · exact attains_of_told h hmain
  · exact attains_of_joined hmain
  · exact attains_of_released hmain

/-- **A process that has been told to stop can come to its end.** In every
state of every run in which a signal has reached its servers, it can be
brought to return `Ok`, by bringing its requests to their answers, executing
its callbacks and letting `main` go on, whatever comes of these steps: there
is always one of them that gets it on. -/
theorem shutdown_completes (es : List FleetEvent)
    (hstop : (((fleet d).run (.initial d db table) es).services i).http = .draining ∨
      (((fleet d).run (.initial d db table) es).services i).http = .drained) :
    (fleet d).Attains (ShutdownMove.outcome i)
      (fun s => (s.services i).main = .ended (some (.ok ())))
      ((fleet d).run (.initial d db table) es) :=
  (fleet_sound d db table es).attains_returned hstop

/-- So the run can be continued to that end by such steps alone. -/
theorem exists_shutdown (es : List FleetEvent)
    (hstop : (((fleet d).run (.initial d db table) es).services i).http = .draining ∨
      (((fleet d).run (.initial d db table) es).services i).http = .drained) :
    ∃ es', (∀ e ∈ es', ∃ m, ShutdownMove.outcome i m e) ∧
      (((fleet d).run (.initial d db table) (es ++ es')).services i).main = .ended (some (.ok ())) := by
  have hattains := (fleet_sound d db table es).attains_returned hstop
  obtain ⟨es', hmoves, hreturned⟩ := hattains.exists_run (ShutdownMove.exists_outcome i)
  refine ⟨es', hmoves, ?_⟩
  rw [Machine.run_append]
  exact hreturned

end Completion

/-! ### A last day -/

/-- One kind of host, on which everything is there. -/
def depot : Deployment where
  jwt := Jwt.admin
  uuid := .hyphenated
  parseAddr text := some ⟨text⟩
  protocol := .atomic
  sites _ := ⟨fun _ => none, true, true⟩

def lateRequest : HttpRequest where
  method := .get
  path := .backups
  authorization := none
  query := []
  contentLength := none
  jsonContentType := false
  body := .broken
  claims := none

def lateReport : Rpc := .updateStatus ⟨"no uuid", "running"⟩

/-- A process comes up on an empty database, takes in a request and a callback,
and is told to stop. -/
def lastDay : List FleetEvent :=
  .start 0 :: List.replicate 11 (.main 0 {}) ++
    [.grpcBound 0 true, .http (.arrive 0 lateRequest), .call 0 lateReport, .signal 0]

/-- The request is refused for want of a token, and the callback is executed. -/
def lastEvening : List FleetEvent :=
  [.http (.authenticate 0 0), .main 0 {}, .main 0 {}, .execute 0 0 ⟨⟨0⟩, 0⟩ {}, .grpcReturned 0,
    .main 0 {}, .main 0 {}, .main 0 {}]

/-- What is left of a program cannot be compared, but whether a process has
returned `Ok` is decidable. -/
instance : (m : ServiceMain) → Decidable (m = .ended (some (.ok ())))
  | .ended (some (.ok ())) => isTrue rfl
  | .down | .running _ | .ended none | .ended (some (.error _)) => isFalse nofun

example : let s := (fleet depot).run (.initial depot .fresh .empty) lastDay
    (s.services 0).http = .draining ∧ s.gateway.visitsOf 0 = [0] ∧
      (s.services 0).calls = [(0, lateReport)] := by decide +kernel

example : let s := (fleet depot).run (.initial depot .fresh .empty) (lastDay ++ lastEvening)
    (s.services 0).main = .ended (some (.ok ())) := by decide +kernel

end BackupService
