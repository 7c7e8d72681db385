import ContractPinger.Spec.JobSteps

/-!
# Who is settled

Every promise `acquireWithin` returns is settled for the job that asked for it. Seen over the
steps of the service: settlements are never taken back, and a job that is not queued is settled
in a step only if it asks in that step.

## Key results

- `Advances`: no call on the pool settles or queues anyone but those queued or asking
- `step_unasked`: a job that is not queued and does not ask keeps its settlement, if any
- `taken_reachable`: past `acquireWithin` a job has the worker its promise was settled with
-/

namespace ContractPinger

open Machine

namespace WorkerPool

/-- Settlements stay, and whoever is queued or settled was so before or has just asked. -/
structure Advances (asked : Nat → Prop) (pool pool' : WorkerPool) : Prop where
  settled : pool.settled <+: pool'.settled
  calls : ∀ i ∈ pool'.calls, i ∈ pool.calls ∨ asked i

namespace Advances

variable {asked : Nat → Prop} {pool pool' pool'' : WorkerPool}

/-- Doing nothing. -/
theorem refl (pool : WorkerPool) : Advances asked pool pool :=
  ⟨List.prefix_refl _, fun _ h => .inl h⟩

/-- One operation after another. -/
theorem trans (h : Advances asked pool pool') (h' : Advances asked pool' pool'') :
    Advances asked pool pool'' := by
  refine ⟨h.settled.trans h'.settled, ?_⟩
  intro i hi
  rcases h'.calls i hi with hbefore | hasked
  · exact h.calls i hbefore
  · exact .inr hasked

/-- Among more that may ask. -/
theorem mono {asked' : Nat → Prop} (h : Advances asked pool pool')
    (himp : ∀ i, asked i → asked' i) : Advances asked' pool pool' :=
  ⟨h.settled, fun i hi => (h.calls i hi).imp_right (himp i)⟩

/-- The queue and the settlements are all that counts. -/
theorem of_eq (hwaiters : pool'.waiters = pool.waiters) (hsettled : pool'.settled = pool.settled) :
    Advances asked pool pool' := by
  refine ⟨by rw [hsettled], ?_⟩
  intro i hi
  rw [WorkerPool.calls, hwaiters, hsettled] at hi
  exact .inl hi

/-- Settling a call that was queued or has just asked, with the rest of the queue as it was. -/
theorem settle (call : Nat) (outcome : Settlement) (hcall : call ∈ pool.calls ∨ asked call)
    (hwaiters : ∀ i ∈ pool'.waiters, i ∈ pool.waiters)
    (hsettled : pool'.settled = pool.settled ++ [(call, outcome)]) :
    Advances asked pool pool' := by
  refine ⟨⟨_, hsettled.symm⟩, ?_⟩
  intro i hi
  rw [WorkerPool.calls, hsettled, List.map_append] at hi
  simp only [List.mem_append, List.map_cons, List.map_nil, List.mem_singleton] at hi
  rcases hi with hi | hi | rfl
  · exact .inl (List.mem_append_left _ (hwaiters i hi))
  · exact .inl (List.mem_append_right _ hi)
  · exact hcall

/-- The call asks. -/
theorem acquireWithin (pool : WorkerPool) (call : Nat) (now : Millis) :
    Advances (· = call) pool (pool.acquireWithin call now) := by
  unfold WorkerPool.acquireWithin
  split
  · rename_i path leased hok
    refine settle call (.resolved path) (.inr rfl) (fun i hi => ?_) ?_
    · rwa [settle_waiters, acquire_waiters hok] at hi
    · rw [settle_settled, acquire_settled hok]
  · exact settle call _ (.inr rfl) (fun _ hi => hi) rfl
  · -- left waiting: the call joins the queue, and nothing is settled
    refine ⟨List.prefix_refl _, ?_⟩
    intro i hi
    simp only [WorkerPool.calls, List.mem_append, List.mem_singleton] at hi ⊢
    rcases hi with (hi | hi) | hi
    · exact .inl (.inl hi)
    · exact .inr hi
    · exact .inl (.inr hi)

/-- A timer settles the promise of one that was queued. -/
theorem expire {i : Nat} (h : i ∈ pool.waiters) : Advances asked pool (pool.expire i) := by
  refine settle i _ (.inl (List.mem_append_left _ h)) (fun j hj => ?_) rfl
  exact List.mem_of_mem_erase hj

/-- A worker handed off settles the promise of the first that was queued. -/
theorem handOff (pool : WorkerPool) (now : Millis) : Advances asked pool (pool.handOff now) := by
  refine handOff_invariant (Advances asked pool) pool now (refl pool) ?_
  intro pool' leased call rest path h hq hok
  refine h.trans (settle call (.resolved path) (.inl ?_) (fun i hi => ?_) ?_)
  · rw [WorkerPool.calls, hq]
    exact List.mem_cons_self
  · rw [hq]
    exact List.mem_cons_of_mem _ hi
  · rw [settleWaiter_settled, acquire_settled hok]

/-- So does a release, if it hands on. -/
theorem release (pool : WorkerPool) (path : String) (now : Millis) :
    Advances asked pool (pool.release path now) := by
  have hfreed : Advances asked pool (pool.modifyWorker path fun w => { w with busy := false }) :=
    of_eq rfl rfl
  exact hfreed.trans (handOff _ now)

/-- The shutdown settles all that were queued. -/
theorem rejectWaiters (pool : WorkerPool) (error : JobError) :
    Advances asked pool (pool.rejectWaiters error) := by
  refine rejectWaiters_invariant (Advances asked pool) pool error (refl pool) ?_
  intro pool' call rest h hq
  refine h.trans (settle call (.rejected error) (.inl ?_) (fun i hi => ?_) rfl)
  · rw [WorkerPool.calls, hq]
    exact List.mem_cons_self
  · rw [hq]
    exact List.mem_cons_of_mem _ hi

/-- Of the calls of `run()`, one asks. -/
theorem onPool (effect : Effect) (now : Millis) (pool : WorkerPool) :
    Advances (effect = .acquireWithin ·) pool (effect.onPool now pool) := by
  cases effect with
  | acquireWithin job =>
    exact (acquireWithin pool job now).mono fun i hi => by rw [hi]
  | release path => exact release pool path now
  | setBalance _ _ _ => exact of_eq rfl rfl
  | quarantine _ _ => exact of_eq rfl rfl
  | reconcile _ _ => exact of_eq rfl rfl
  | update _ _ => exact refl pool
  | fail _ _ _ => exact refl pool
  | began _ _ => exact refl pool

/-- A stretch of code settles and queues only who was queued or asks in it. -/
theorem onPools (effects : List Effect) (now : Millis) (pool : WorkerPool) :
    Advances (.acquireWithin · ∈ effects) pool
      (effects.foldl (fun pool effect => effect.onPool now pool) pool) := by
  induction effects generalizing pool with
  | nil => exact refl pool
  | cons effect rest ih =>
    have hfirst := (onPool effect now pool).mono fun i hi =>
      show Effect.acquireWithin i ∈ effect :: rest by rw [← hi]; exact List.mem_cons_self
    have hrest := (ih (effect.onPool now pool)).mono fun i hi =>
      show Effect.acquireWithin i ∈ effect :: rest from List.mem_cons_of_mem _ hi
    exact hfirst.trans hrest

end Advances

end WorkerPool

namespace Frame

/-- A job waits for an address at `acquireWithin` and nowhere else. -/
theorem tenure_waiting {f : Frame} : f.tenure = .waiting ↔ f.pc = .leasing := by
  constructor
  · intro h
    cases hpc : f.pc with
    | leasing => rfl
    | _ => cases hworker : f.worker <;>
        simp [tenure, phase, hpc, hworker, Pc.stage, Stage.phase] at h
  · intro hpc
    simp only [tenure, phase, hpc, Pc.stage, Stage.phase]

/-- A job asks on its own behalf only, once, on its way to `acquireWithin`. -/
theorem resume_asks {s : Setup} {view : RunView} {job i : Nat} {f : Frame} {reply : Reply}
    {next : Frame × List Effect} (hwf : f.Wf) (h : f.resume s view job reply = some next)
    (hask : .acquireWithin i ∈ next.2) : i = job ∧ f.tenure = .idle ∧ next.1.pc = .leasing := by
  have hmem : .acquireWithin i ∈ next.2.filter Effect.movesLease :=
    List.mem_filter.mpr ⟨hask, rfl⟩
  -- asking is one of the moves of the lease, and only one of them asks
  obtain ⟨_, hmove⟩ := resume_lease hwf h
  rw [← tenure_waiting]
  generalize next.2.filter Effect.movesLease = calls at hmove hmem
  generalize f.tenure = old at hmove
  generalize next.1.tenure = new at hmove
  cases hmove with
  | ask =>
    rw [List.mem_singleton, Effect.acquireWithin.injEq] at hmem
    exact ⟨hmem, rfl, rfl⟩
  | release path =>
    rw [List.mem_singleton] at hmem
    cases hmem
  | keep | giveUp | take | lose => cases hmem

end Frame

namespace World

/-- The job asks for an address in the step. -/
def Asks (w w' : World) (job : Nat) : Prop :=
  ∃ effects, w'.callsOf job = w.callsOf job ++ effects ∧ .acquireWithin job ∈ effects

/-- What a step does to the promises. -/
theorem step_advances {s : Setup} {w w' : World} {a : Action} (hleases : w.LeaseInv)
    (hstep : step s w a = some w') : w.pool.Advances (w.Asks w') w'.pool := by
  cases a with
  | start mode =>
    cases hstep
    exact .of_eq (by rw [start_pool]) (by rw [start_pool])
  | getWorkers =>
    cases hstep
    have hpool : (w.getWorkers s).pool = w.pool := ensureAddresses_pool w s
    exact .of_eq (by rw [hpool]) (by rw [hpool])
  | resume job reply =>
    obtain ⟨f, f', effects, hf, hresume, rfl⟩ := step_resume hstep
    have hwf := hleases.wf f (List.mem_of_getElem? hf)
    rw [performAll_pool]
    refine (WorkerPool.Advances.onPools effects w.now w.pool).mono fun i hi => ?_
    -- whoever asks in a job's code is the job
    obtain ⟨rfl, _⟩ := Frame.resume_asks hwf hresume hi
    exact ⟨effects, callsOf_performAll _ i effects, hi⟩
  | resumeRequest request reply =>
    obtain ⟨pc, pc', effects, _, hresume, rfl⟩ := step_resumeRequest hstep
    rw [performAll_pool]
    refine (WorkerPool.Advances.onPools effects w.now w.pool).mono fun i hi => ?_
    -- and in a request's code nobody asks
    cases resumeRequest_move hresume with
    | silent => cases hi
    | refreshed | reconciled => simp at hi
  | resumeDerivation index reply =>
    obtain ⟨pool, _, _, rfl, hpool⟩ := step_resumeDerivation hstep
    rcases hpool with rfl | ⟨_, derived, _, rfl, _⟩
    · exact .refl _
    · exact applyAddresses_invariant (w.pool.Advances _) w.pool derived (.refl _)
        fun pool path address h => h.trans (.of_eq rfl rfl)
  | expire job =>
    obtain ⟨hmem, rfl⟩ := step_expire hstep
    rw [hleases.ledger.timers_eq] at hmem
    exact .expire hmem
  | respondDeadline job =>
    obtain ⟨_, _, _, rfl⟩ := step_respondDeadline hstep
    exact .refl _
  | abortActiveJobs =>
    cases hstep
    exact .rejectWaiters w.pool _
  | clock now =>
    cases hstep
    exact .refl _

/-- A job that is not queued and does not ask is not queued by the step, nor settled. -/
theorem step_unasked {s : Setup} {w w' : World} {a : Action} {job : Nat} (hleases : w.LeaseInv)
    (hstep : step s w a = some w') (hnot : job ∉ w.pool.waiters) (hask : ¬ w.Asks w' job) :
    job ∉ w'.pool.waiters ∧
      ∀ outcome, (job, outcome) ∈ w'.pool.settled ↔ (job, outcome) ∈ w.pool.settled := by
  have hadvances := step_advances hleases hstep
  have hleases' := leaseInv_step hleases hstep
  have hkept : ∀ outcome, (job, outcome) ∈ w.pool.settled → (job, outcome) ∈ w'.pool.settled :=
    fun outcome hmem => hadvances.settled.subset hmem
  -- whoever is queued or settled now was settled before
  have hbefore : job ∈ w'.pool.calls → ∃ outcome, (job, outcome) ∈ w.pool.settled := by
    intro hmem
    have hcalls := (hadvances.calls job hmem).resolve_right hask
    have hsettled := (List.mem_append.mp hcalls).resolve_left hnot
    obtain ⟨⟨_, outcome⟩, hentry, rfl⟩ := List.mem_map.mp hsettled
    exact ⟨outcome, hentry⟩
  constructor
  · intro hqueued
    obtain ⟨outcome, hentry⟩ := hbefore (List.mem_append_left _ hqueued)
    exact hleases'.ledger.not_settled hqueued outcome (hkept outcome hentry)
  · intro outcome
    refine ⟨fun hmem => ?_, hkept outcome⟩
    obtain ⟨old, hentry⟩ := hbefore (List.mem_append_right _ (List.mem_map_of_mem hmem))
    -- its promise was settled before, and is settled once
    rw [hleases'.ledger.outcome_unique hmem (hkept old hentry)]
    exact hentry

end World

/-! ## The worker of a job -/

namespace Frame

section Ways

variable (f : Frame) (pc : Pc) (effects : List Effect)

@[simp] theorem finish_worker : (f.finish pc effects).1.worker = f.worker := by
  simp [finish, abort]

@[simp] theorem proceed_worker (before : List Effect) :
    (f.proceed pc before effects).1.worker = f.worker := by
  unfold proceed
  split
  · exact finish_worker f _ _
  · rfl

@[simp] theorem buildFailed_worker (job balance : Nat) (path : String) (e : JsError) :
    (resumeLeased.buildFailed job path f balance e).1.worker = f.worker := by
  unfold resumeLeased.buildFailed
  split
  · exact finish_worker f _ _
  · exact finish_worker f _ _

end Ways

/-- From `leasing` on, a job keeps its worker. -/
theorem resumeLeased_worker {s : Setup} {view : RunView} {job : Nat} {path : String} {f : Frame}
    {pc : Pc} {reply : Reply} {next : Frame × List Effect}
    (h : f.resumeLeased s view job path pc reply = some next) :
    next.1.worker = f.worker ∧ pc ≠ .leasing := by
  cases resumeLeased_stretch h
  -- the checks
  case funded => exact ⟨proceed_worker _ _ _ _, by simp⟩
  case built => exact ⟨proceed_worker _ _ _ _, by simp⟩
  case nonceFailed => exact ⟨buildFailed_worker _ _ _ _ _, by simp⟩
  case estimateFailed => exact ⟨buildFailed_worker _ _ _ _ _, by simp⟩
  case confirmed released effects hrel =>
    have hkept := f.releaseLease_worker
    rw [hrel] at hkept
    exact ⟨hkept, by simp⟩
  -- the other ways on suspend, return or throw
  all_goals
    refine ⟨?_, by simp⟩
    first
      | exact finish_worker _ _ _
      | rfl

/-- A job gets its worker when its promise resolves, and keeps it. -/
theorem resume_worker {s : Setup} {view : RunView} {job : Nat} {f : Frame} {reply : Reply}
    {next : Frame × List Effect} (h : f.resume s view job reply = some next) :
    next.1.worker = f.worker ∧
        (f.pc = .leasing → ∃ error, view.pool.settlement job = some (.rejected error)) ∨
      ∃ path, f.pc = .leasing ∧ view.pool.settlement job = some (.resolved path) ∧
        next.1.worker = some path := by
  cases resume_stretch h
  -- at `acquireWithin`, the promise decides
  case refused hpc error hset => exact .inl ⟨finish_worker _ _ _, fun _ => ⟨error, hset⟩⟩
  case leased hpc path hset => exact .inr ⟨path, hpc, hset, rfl⟩
  case works h =>
    obtain ⟨hworker, hpc⟩ := resumeLeased_worker h
    exact .inl ⟨hworker, fun hleasing => absurd hleasing hpc⟩
  all_goals
    refine .inl ⟨?_, by simp [‹f.pc = _›]⟩
    first
      | rfl
      | exact finish_worker _ _ _
      | exact proceed_worker _ _ _ _

end Frame

namespace World

/-- Past `acquireWithin`, a job has the worker its promise was settled with, if any. -/
def Taken (w : World) : Prop :=
  ∀ (job : Nat) (f : Frame), w.frames[job]? = some f → f.pc ≠ .leasing → ∀ path,
    f.worker = some path ↔ (job, .resolved path) ∈ w.pool.settled

/-- Only a job at `acquireWithin` is queued. -/
theorem LeaseInv.not_queued {w : World} (h : w.LeaseInv) {job : Nat} {f : Frame}
    (hf : w.frames[job]? = some f) (hpc : f.pc ≠ .leasing) : job ∉ w.pool.waiters := by
  intro hmem
  have hwait := h.ledger.queued job hmem
  rw [tenure_eq hf, Frame.tenure_waiting] at hwait
  exact hpc hwait

/-- A step in which the job makes no call. -/
theorem not_asks_of_callsOf {w w' : World} {job : Nat} (h : w'.callsOf job = w.callsOf job) :
    ¬ w.Asks w' job := by
  rintro ⟨effects, hcalls, hmem⟩
  rw [h] at hcalls
  rw [List.self_eq_append_right.mp hcalls] at hmem
  cases hmem

/-- A job that has not been accepted yet has not called the pool. -/
theorem LeaseInv.not_called {w : World} (h : w.LeaseInv) {job : Nat}
    (hjob : w.frames[job]? = none) : job ∉ w.pool.calls := by
  intro hmem
  refine h.ledger.asked job hmem ?_
  rw [tenure, hjob]
  rfl

/-- A settled promise of a job that does not ask stays what it was settled with. -/
theorem step_settlement {s : Setup} {w w' : World} {a : Action} {job : Nat} {outcome : Settlement}
    (hleases : w.LeaseInv) (hstep : step s w a = some w')
    (hset : w.pool.settlement job = some outcome) (hask : ¬ w.Asks w' job) (other : Settlement) :
    (job, other) ∈ w'.pool.settled ↔ other = outcome := by
  obtain ⟨hmem, hnot⟩ := hleases.ledger.not_queued hset
  obtain ⟨_, hsettled⟩ := step_unasked hleases hstep hnot hask
  rw [hsettled]
  constructor
  · exact fun hother => hleases.ledger.outcome_unique hother hmem
  · rintro rfl
    exact hmem

/-- A step leaves every job past `acquireWithin` with the worker it was granted. -/
theorem taken_step {s : Setup} {w w' : World} {a : Action} (hleases : w.LeaseInv)
    (h : w.Taken) (hstep : step s w a = some w') : w'.Taken := by
  intro job f' hf' hpast path
  -- a job that is past `acquireWithin`, keeps its worker and does not ask
  have hkept : ∀ f : Frame, w.frames[job]? = some f → f.pc ≠ .leasing → f'.worker = f.worker →
      ¬ w.Asks w' job → (f'.worker = some path ↔ (job, .resolved path) ∈ w'.pool.settled) := by
    intro f hf hpc hworker hask
    obtain ⟨_, hsettled⟩ := step_unasked hleases hstep (hleases.not_queued hf hpc) hask
    rw [hsettled, hworker]
    exact h job f hf hpc path
  cases step_job hstep job with
  | absent _ hafter _ _ =>
    rw [hafter] at hf'
    cases hf'
  | accepted f mode _ hid hafter hfresh hcalls =>
    have hnone := hleases.not_called (List.getElem?_eq_none (Nat.le_of_eq hid.symm))
    obtain ⟨_, hsettled⟩ := step_unasked hleases hstep
      (fun hmem => hnone (List.mem_append_left _ hmem)) (not_asks_of_callsOf hcalls)
    obtain rfl := Option.some.inj (hafter.symm.trans hf')
    rw [hsettled, hfresh.worker]
    exact iff_of_false (by simp) fun hmem =>
      hnone (List.mem_append_right _ (List.mem_map_of_mem hmem))
  | resumed reply f g effects _ hbefore hafter hresume _ hcalls =>
    obtain rfl := Option.some.inj (hafter.symm.trans hf')
    have hwf := hleases.wf f (List.mem_of_getElem? hbefore)
    have hask : ¬ w.Asks w' job := by
      rintro ⟨_, heffects, hmem⟩
      rw [hcalls, List.append_cancel_left_eq] at heffects
      subst heffects
      -- whoever asks ends up at `acquireWithin`
      exact hpast (Frame.resume_asks hwf hresume hmem).2.2
    by_cases hpc : f.pc = .leasing
    · -- the promise has been settled, and the job resumes with what it was settled with
      rcases Frame.resume_worker hresume with ⟨hworker, hrejected⟩ | ⟨taken, _, hset, hworker⟩
      · obtain ⟨error, hset⟩ := hrejected hpc
        have hphase : f.phase = .waiting := Frame.phase_eq hpc
        simp only [Frame.Wf, hphase] at hwf
        rw [step_settlement hleases hstep hset hask, hworker, hwf.1]
        simp
      · rw [step_settlement hleases hstep hset hask, hworker]
        simp [eq_comm]
    · rcases Frame.resume_worker hresume with ⟨hworker, _⟩ | ⟨_, hleasing, _⟩
      · exact hkept f hbefore hpc hworker hask
      · exact absurd hleasing hpc
  | stays f hbefore hafter _ _ hcalls =>
    obtain rfl := Option.some.inj (hafter.symm.trans hf')
    exact hkept f hbefore hpast rfl (not_asks_of_callsOf hcalls)
  | deadline f _ hbefore _ hafter hcalls =>
    obtain rfl := Option.some.inj (hafter.symm.trans hf')
    exact hkept f hbefore hpast rfl (not_asks_of_callsOf hcalls)
  | aborted f _ hbefore _ hafter hcalls =>
    obtain rfl := Option.some.inj (hafter.symm.trans hf')
    exact hkept f hbefore hpast rfl (not_asks_of_callsOf hcalls)

/-- So every reachable state has it. -/
theorem taken_reachable {s : Setup} {start : Millis} {w : World}
    (h : Reachable (step s) (World.new s start) w) : w.Taken :=
  h.invariant' (fun _ _ hf => by cases hf) fun _ _ _ hreach hinv _ hstep =>
    taken_step (leaseInv_reachable hreach) hinv hstep

end World

end ContractPinger
