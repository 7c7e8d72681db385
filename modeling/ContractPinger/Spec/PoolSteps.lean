import ContractPinger.Model.Chain
import ContractPinger.Spec.Marks

/-!
# What a step does to the workers

One inversion lemma for the pool, as `JobsStep` is for the job store, and what follows from
it for the quarantines in a run of the service.

## Key results

- `step_pool`: a step leaves the workers alone, applies derived addresses, or makes the
  calls of one stretch of code
- `guarded_reachable`: no leased worker is ever quarantined
- `quarantined_step`: only counts that say nothing is outstanding lift a quarantine
- `step_stands`: a job that a step does not resume stays at its `await`
-/

namespace ContractPinger

open Machine

namespace WorkerPool

variable {pool : WorkerPool} {path q : String} {effects : List Effect}

/-- Only a `reconcile` of its own path lifts a quarantine. -/
theorem Quarantined.onPool (hnd : pool.paths.Nodup) (h : pool.Quarantined q) {effect : Effect}
    (hkeep : effect ≠ .reconcile q false) (now : Millis) :
    (effect.onPool now pool).Quarantined q := by
  cases effect with
  | acquireWithin job =>
    exact (Quarantined.congr (LeasesOnly.acquireWithin pool job now).standing).mpr h
  | release path => exact (Quarantined.congr (LeasesOnly.release pool path now).standing).mpr h
  | setBalance path balanceWei minBalanceWei => exact h.setBalance hnd path balanceWei minBalanceWei
  | quarantine path nonce => exact h.quarantine hnd path nonce
  | reconcile path hasOutstanding =>
    refine h.reconcile hnd path ?_
    -- another path is no matter; its own is kept while something is outstanding
    rintro rfl
    cases hasOutstanding with
    | true => rfl
    | false => exact absurd rfl hkeep
  | update _ _ => exact h
  | fail _ _ _ => exact h
  | began _ _ => exact h

/-- A stretch of code lifts a quarantine only by reconciling it. -/
theorem Quarantined.onPools (hnd : pool.paths.Nodup) (h : pool.Quarantined q)
    (hkeep : .reconcile q false ∉ effects) (now : Millis) :
    (effects.foldl (fun pool effect => effect.onPool now pool) pool).Quarantined q := by
  induction effects generalizing pool with
  | nil => exact h
  | cons effect rest ih =>
    rw [List.mem_cons, not_or] at hkeep
    have hfirst := h.onPool hnd (Ne.symm hkeep.1) now
    rw [← onPool_paths effect now pool] at hnd
    exact ih hnd hfirst hkeep.2

end WorkerPool

/-- The counts an action answers, and whom. -/
def Action.counts : Action → Option (Proc × Nat × Nat)
  | .resume job (.counts latest pending) => some (.job job, latest, pending)
  | .resumeRequest request (.counts latest pending) => some (.request request, latest, pending)
  | _ => none

namespace World

/-- What a step makes of the workers, and the calls it makes. -/
inductive PoolStep (s : Setup) (w w' : World) : Action → Prop
  | same {a : Action} (idle : a.resumed = none) (workers : w'.pool.workers = w.pool.workers)
      (calls : w'.calls = w.calls) : PoolStep s w w' a
  | derived {a : Action} (idle : a.resumed = none) (derived : List DerivedWorker)
      (pool : w'.pool = applyAddresses w.pool derived) (calls : w'.calls = w.calls) :
      PoolStep s w w' a
  | job (job : Nat) (reply : Reply) (f f' : Frame) (effects : List Effect)
      (suspended : w.frames[job]? = some f) (resumed : w'.frames[job]? = some f')
      (marks : MarkMove s.env.bidirectional.minBalanceWei job f f' reply effects)
      (pool : w'.pool = effects.foldl (fun pool effect => effect.onPool w.now pool) w.pool)
      (calls : w'.calls = w.calls ++ effects.map fun effect => (.job job, effect)) :
      PoolStep s w w' (.resume job reply)
  | request (request : Nat) (reply : Reply) (pc : RequestPc) (effects : List Effect)
      (suspended : w.requests[request]? = some pc) (moves : RequestMove s pc reply effects)
      (pool : w'.pool = effects.foldl (fun pool effect => effect.onPool w.now pool) w.pool)
      (calls : w'.calls = w.calls ++ effects.map fun effect => (.request request, effect)) :
      PoolStep s w w' (.resumeRequest request reply)

/-- Every step of the service is one of these. -/
theorem step_pool {s : Setup} {w w' : World} {a : Action} (hleases : w.LeaseInv)
    (hstep : step s w a = some w') : PoolStep s w w' a := by
  cases a with
  | start mode =>
    cases hstep
    exact .same rfl (congrArg WorkerPool.workers (start_pool w s mode)) (start_calls w s mode)
  | getWorkers =>
    cases hstep
    exact .same rfl (congrArg WorkerPool.workers (ensureAddresses_pool w s))
      (congrArg (List.filterMap Event.call?) (ensureAddresses_history w s))
  | resume job reply =>
    obtain ⟨f, f', effects, hf, hresume, rfl⟩ := step_resume hstep
    have hlt : job < w.frames.length := (List.getElem?_eq_some_iff.mp hf).1
    -- the only step that leases, and its frame's marks say which calls it makes
    refine .job job reply f f' effects hf ?_ ?_ (performAll_pool _ _ _) (performAll_calls _ _ _)
    · rw [performAll_frames]
      exact List.getElem?_set_self hlt
    · exact Frame.resume_marks (hleases.wf f (List.mem_of_getElem? hf)) hresume
  | resumeRequest request reply =>
    obtain ⟨pc, pc', effects, hpc, hresume, rfl⟩ := step_resumeRequest hstep
    exact .request request reply pc effects hpc (resumeRequest_move hresume)
      (performAll_pool _ _ _) (performAll_calls _ _ _)
  | resumeDerivation index reply =>
    obtain ⟨pool, ready, derivations, rfl, hpool⟩ := step_resumeDerivation hstep
    -- adopted only where the derivation that ended was the one in flight
    rcases hpool with rfl | ⟨_, derived, _, rfl, _⟩
    · exact .same rfl rfl rfl
    · exact .derived rfl derived rfl rfl
  | expire job =>
    obtain ⟨_, rfl⟩ := step_expire hstep
    -- the queue forgets a waiter; the workers stay
    exact .same rfl rfl (setPool_calls _ _)
  | respondDeadline job =>
    obtain ⟨_, _, _, rfl⟩ := step_respondDeadline hstep
    exact .same rfl rfl rfl
  | abortActiveJobs =>
    cases hstep
    exact .same rfl (WorkerPool.rejectWaiters_workers _ _) (abortActiveJobs_calls w)
  | clock now =>
    cases hstep
    exact .same rfl rfl rfl

/-- The pool's paths are distinct. -/
theorem AddressInv.paths_nodup {s : Setup} {w : World} (h : AddressInv s w) :
    w.pool.paths.Nodup := h.paths ▸ buildPaths_nodup _ _

/-! ## Quarantines in a run -/

/-- Every step keeps leased workers out of quarantine. -/
theorem guarded_step {s : Setup} {w w' : World} {a : Action} (hleases : w.LeaseInv)
    (haddresses : AddressInv s w) (h : w.pool.Guarded) (hstep : step s w a = some w') :
    w'.pool.Guarded := by
  have hnd := haddresses.paths_nodup
  cases step_pool hleases hstep with
  | same _ hworkers _ =>
    rw [WorkerPool.Guarded, WorkerPool.GuardedBut, hworkers]
    exact h
  | derived _ derived hpool _ =>
    rw [hpool]
    exact applyAddresses_invariant WorkerPool.Guarded w.pool derived h
      fun _ _ _ hguard => hguard.modifyWorker fun _ _ hw => hw
  | job job reply f f' effects _ _ hmarks hpool _ =>
    rw [hpool]
    cases hmarks with
    | unmarked hmarks _ => exact h.onPools hnd hmarks.no_quarantine w.now
    | reconciled _ _ _ _ _ _ hcalls =>
      rw [hcalls]
      exact h.onPools hnd (by simp) w.now
    | refreshed _ _ _ _ _ hcalls =>
      rw [hcalls]
      exact h.onPools hnd (by simp) w.now
    | tooPoor _ _ _ _ _ _ _ hcalls =>
      rw [hcalls]
      exact h.onPools hnd (by simp) w.now
    -- the one place that quarantines a leased worker, and it releases it right away
    | gaveUp path nonce _ _ _ _ _ hcalls =>
      rw [hcalls]
      exact h.gaveUp hnd path nonce w.now
  | request request reply pc effects _ hmoves hpool _ =>
    rw [hpool]
    cases hmoves with
    | silent => exact h
    | refreshed | reconciled => exact h.onPools hnd (by simp) w.now

/-- No leased worker is quarantined, in any reachable state. -/
theorem guarded_reachable {s : Setup} {start : Millis} {w : World}
    (h : Reachable (step s) (World.new s start) w) : w.pool.Guarded := by
  refine h.invariant' ?_ fun _ _ _ hreach hinv _ hstep =>
    guarded_step (leaseInv_reachable hreach) (addressInv_reachable hreach) hinv hstep
  intro worker hworker hbusy
  -- nobody is leased at the start
  obtain ⟨path, _, rfl⟩ := List.mem_map.mp hworker
  cases hbusy

/-- Only counts that say nothing is outstanding lift a quarantine. -/
theorem quarantined_step {s : Setup} {w w' : World} {a : Action} {path : String}
    (hleases : w.LeaseInv) (haddresses : AddressInv s w) (h : w.pool.Quarantined path)
    (hstep : step s w a = some w') :
    w'.pool.Quarantined path ∨ ∃ who latest pending, a.counts = some (who, latest, pending) ∧
      w.reconcilingPath who = some path ∧ pending ≤ latest := by
  have hnd := haddresses.paths_nodup
  -- one `reconcile`, of the path `who` is reading the counts of
  have hreconcile : ∀ who {p latest pending}, a.counts = some (who, latest, pending) →
      w.reconcilingPath who = some p →
      (w.pool.reconcile p (decide (latest < pending))).Quarantined path ∨
        ∃ who latest pending, a.counts = some (who, latest, pending) ∧
          w.reconcilingPath who = some path ∧ pending ≤ latest := by
    intro who p latest pending hcounts hwho
    by_cases hlift : p = path ∧ pending ≤ latest
    · rw [hlift.1] at hwho
      exact .inr ⟨who, latest, pending, hcounts, hwho, hlift.2⟩
    · -- another path, or counts that say something is outstanding
      refine .inl (h.reconcile hnd p ?_)
      intro heq
      have hle : ¬ pending ≤ latest := fun hle => hlift ⟨heq.symm, hle⟩
      rw [decide_eq_true_eq]
      omega
  cases step_pool hleases hstep with
  | same _ hworkers _ =>
    refine .inl ((WorkerPool.Quarantined.congr ?_).mpr h)
    rw [WorkerPool.standing, hworkers, WorkerPool.standing]
  | derived _ derived hpool _ =>
    rw [hpool]
    refine .inl (applyAddresses_invariant (fun pool => pool.paths.Nodup ∧ pool.Quarantined path)
      w.pool derived ⟨hnd, h⟩ ?_).2
    intro pool p address hpool
    obtain ⟨hpaths, hquarantined⟩ := hpool
    refine ⟨(pool.setAddress_paths p address).symm ▸ hpaths, ?_⟩
    exact hquarantined.modifyWorker hpaths (fun _ => rfl) (fun _ _ _ hw => hw) fun _ => rfl
  | job job reply f f' effects hf _ hmarks hpool _ =>
    rw [hpool]
    cases hmarks with
    | unmarked hmarks _ =>
      exact .inl (h.onPools hnd (fun hmem => by cases hmarks.mark hmem) w.now)
    | reconciled p rest latest pending hpc hreply hcalls =>
      rw [hcalls]
      refine hreconcile (.job job) (by rw [hreply]; rfl) ?_
      simp [reconcilingPath, hf, hpc]
    | refreshed _ _ _ _ _ hcalls =>
      rw [hcalls]
      exact .inl (h.onPools hnd (by simp) w.now)
    | tooPoor _ _ _ _ _ _ _ hcalls =>
      rw [hcalls]
      exact .inl (h.onPools hnd (by simp) w.now)
    | gaveUp _ _ _ _ _ _ _ hcalls =>
      rw [hcalls]
      exact .inl (h.onPools hnd (by simp) w.now)
  | request request reply pc effects hpc hmoves hpool _ =>
    rw [hpool]
    cases hmoves with
    | silent => exact .inl h
    | refreshed => exact .inl (h.onPools hnd (by simp) w.now)
    | reconciled p rest latest pending hstands hcounts =>
      refine hreconcile (.request request) (by rw [hcounts]; rfl) ?_
      simp [reconcilingPath, hpc, hstands]

/-! ## Who stays at its `await` -/

/-- The `await` a job is suspended at, and the worker it has. -/
def stands (w : World) (job : Nat) : Option (Pc × Option String) :=
  w.frames[job]?.map fun f => (f.pc, f.worker)

/-- Where a job stands is its `await` and its worker. -/
theorem stands_congr {w w' : World} (h : w'.frames.map (fun f => (f.pc, f.worker)) =
    w.frames.map fun f => (f.pc, f.worker)) (job : Nat) : w'.stands job = w.stands job := by
  rw [stands, stands, ← List.getElem?_map, ← List.getElem?_map, h]

/-- A job that a step does not resume stays where it is, or has just been accepted. -/
theorem step_stands {s : Setup} {w w' : World} {a : Action} {job : Nat}
    (hstep : step s w a = some w') (hother : a.resumed ≠ some (.job job)) :
    w'.stands job = w.stands job ∨ w.stands job = none ∧
      ((∃ d, w'.stands job = some (.ensuringAddresses d, none)) ∨
        ∃ e, w'.stands job = some (.rejected e, none)) := by
  cases a with
  | start mode =>
    cases hstep
    obtain ⟨f, hframes, hworker, _, hpc⟩ := start_frames w s mode
    -- an earlier job, the one just accepted, or none
    rcases Nat.lt_trichotomy job w.frames.length with hlt | rfl | hgt
    · refine .inl ?_
      rw [stands, hframes, List.getElem?_append_left hlt, stands]
    · have hnone : w.stands w.frames.length = none := by
        rw [stands, List.getElem?_eq_none (Nat.le_refl _)]
        rfl
      have hnew : (w.start s mode).stands w.frames.length = some (f.pc, none) := by
        rw [stands, hframes, List.getElem?_concat_length, ← hworker]
        rfl
      rw [hnew]
      rcases hpc with ⟨d, hpc⟩ | ⟨e, hpc⟩
      · exact .inr ⟨hnone, .inl ⟨d, by rw [hpc]⟩⟩
      · exact .inr ⟨hnone, .inr ⟨e, by rw [hpc]⟩⟩
    · refine .inl ?_
      rw [stands, stands, hframes, List.getElem?_eq_none (Nat.le_of_lt hgt),
        List.getElem?_eq_none (by rw [List.length_append, List.length_singleton]; omega)]
  | getWorkers =>
    cases hstep
    refine .inl (stands_congr ?_ job)
    exact congrArg (List.map _) (ensureAddresses_frames w s)
  | resume other reply =>
    obtain ⟨f, f', effects, _, _, rfl⟩ := step_resume hstep
    have hne : other ≠ job := by
      rintro rfl
      exact hother rfl
    refine .inl ?_
    rw [stands, performAll_frames, stands, List.getElem?_set_ne hne]
  | resumeRequest request reply =>
    obtain ⟨_, _, _, _, _, rfl⟩ := step_resumeRequest hstep
    exact .inl (stands_congr (by rw [performAll_frames]) job)
  | resumeDerivation index reply =>
    obtain ⟨_, _, _, rfl, _⟩ := step_resumeDerivation hstep
    exact .inl rfl
  | expire call =>
    obtain ⟨_, rfl⟩ := step_expire hstep
    exact .inl rfl
  | respondDeadline other =>
    obtain ⟨f, hf, _, rfl⟩ := step_respondDeadline hstep
    refine .inl (stands_congr ?_ job)
    exact List.map_set_of_eq hf rfl
  | abortActiveJobs =>
    cases hstep
    exact .inl (stands_congr (abortActiveJobs_map w _ fun _ => rfl) job)
  | clock now =>
    cases hstep
    exact .inl rfl

end World

end ContractPinger
