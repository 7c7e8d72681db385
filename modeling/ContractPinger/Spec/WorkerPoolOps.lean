import ContractPinger.Model.WorkerPool

/-!
# What each pool operation does

One characterisation for each operation of `WorkerPool`, so that later proofs cite
these and leave the operations folded: which worker changes and how, which fields
stay, and which promises are settled.

## Key results

- `acquire_ok` / `acquire_error`: `acquire` hands out the first available worker, and
  throws exactly when none is
- `handOff_invariant` / `rejectWaiters_invariant`: the rules of the two queue loops
- `handOff_serves` / `handOff_exhausts`: a hand-off serves the queue from its front, and
  leaves someone queued only when no worker is available
-/

namespace ContractPinger.WorkerPool

/-! ## Fields that stay -/

section Frame

variable (pool : WorkerPool) (path : String) (f : Worker → Worker)

@[simp] theorem modifyWorker_waiters : (pool.modifyWorker path f).waiters = pool.waiters := rfl

@[simp] theorem modifyWorker_timers : (pool.modifyWorker path f).timers = pool.timers := rfl

@[simp] theorem modifyWorker_settled : (pool.modifyWorker path f).settled = pool.settled := rfl

@[simp] theorem settle_workers (call : Nat) (outcome : Settlement) :
    (pool.settle call outcome).workers = pool.workers := rfl

@[simp] theorem settle_waiters (call : Nat) (outcome : Settlement) :
    (pool.settle call outcome).waiters = pool.waiters := rfl

@[simp] theorem settle_timers (call : Nat) (outcome : Settlement) :
    (pool.settle call outcome).timers = pool.timers := rfl

@[simp] theorem settle_settled (call : Nat) (outcome : Settlement) :
    (pool.settle call outcome).settled = pool.settled ++ [(call, outcome)] := rfl

@[simp] theorem settleWaiter_workers (call : Nat) (outcome : Settlement) :
    (pool.settleWaiter call outcome).workers = pool.workers := rfl

@[simp] theorem settleWaiter_waiters (call : Nat) (outcome : Settlement) :
    (pool.settleWaiter call outcome).waiters = pool.waiters := rfl

@[simp] theorem settleWaiter_timers (call : Nat) (outcome : Settlement) :
    (pool.settleWaiter call outcome).timers = pool.timers.erase call := rfl

@[simp] theorem settleWaiter_settled (call : Nat) (outcome : Settlement) :
    (pool.settleWaiter call outcome).settled = pool.settled ++ [(call, outcome)] := rfl

end Frame

/-- An address changes no path. -/
theorem setAddress_paths (pool : WorkerPool) (path : String) (address : Hex) :
    (pool.setAddress path address).paths = pool.paths := by
  refine List.map_modifyFirst (fun w => ?_) pool.workers
  rfl

/-! ## Acquiring -/

/-- `acquire` succeeds with the first available worker and marks that one alone. -/
theorem acquire_ok {pool leased : WorkerPool} {now : Millis} {path : String}
    (h : pool.acquire now = .ok (path, leased)) :
    ∃ candidate, pool.workers.find? Worker.available = some candidate ∧
      candidate.path = path ∧
      leased = { pool with
        workers := pool.workers.modifyFirst Worker.available (Worker.lease now) } := by
  simp only [acquire] at h
  split at h
  · cases h
  · rename_i candidate hfind
    simp only [Except.ok.injEq, Prod.mk.injEq] at h
    exact ⟨candidate, hfind, h.1, h.2.symm⟩

/-- `acquire` throws only when no worker is available. -/
theorem acquire_error {pool : WorkerPool} {now : Millis} {reason : NoWorkerReason}
    (h : pool.acquire now = .error reason) : ∀ w ∈ pool.workers, w.available = false := by
  simp only [acquire] at h
  split at h
  · rename_i hnone
    intro w hw
    simpa using List.find?_eq_none.mp hnone w hw
  · cases h

/-- With no worker available, `acquire` does not succeed. -/
theorem not_acquire_ok {pool leased : WorkerPool} {now : Millis} {path : String}
    (hnone : ∀ w ∈ pool.workers, w.available = false) :
    pool.acquire now ≠ .ok (path, leased) := by
  intro h
  obtain ⟨candidate, hfind, _, _⟩ := acquire_ok h
  have havail := List.find?_some hfind
  rw [hnone candidate (List.mem_of_find?_eq_some hfind)] at havail
  cases havail

/-- Leasing leaves the queue. -/
theorem acquire_waiters {pool leased : WorkerPool} {now : Millis} {path : String}
    (h : pool.acquire now = .ok (path, leased)) : leased.waiters = pool.waiters := by
  obtain ⟨_, _, _, rfl⟩ := acquire_ok h
  rfl

/-- Leasing settles nothing. -/
theorem acquire_settled {pool leased : WorkerPool} {now : Millis} {path : String}
    (h : pool.acquire now = .ok (path, leased)) : leased.settled = pool.settled := by
  obtain ⟨_, _, _, rfl⟩ := acquire_ok h
  rfl

/-! ## Handing off and rejecting -/

/-- The rule of the hand-off loop: what one hand-off keeps, the whole loop keeps. -/
theorem handOff_invariant (P : WorkerPool → Prop) (pool : WorkerPool) (now : Millis)
    (h : P pool)
    (hstep : ∀ (pool leased : WorkerPool) (call : Nat) (rest : List Nat) (path : String),
      P pool → pool.waiters = call :: rest → pool.acquire now = .ok (path, leased) →
      P ({ leased with waiters := rest }.settleWaiter call (.resolved path))) :
    P (pool.handOff now) := by
  suffices ∀ queue pool, P pool → pool.waiters = queue → P (handOffTo now pool queue) from
    this _ pool h rfl
  intro queue
  -- the loop runs over the queue it found; each hand-off keeps the two equal
  induction queue with
  | nil => exact fun _ hP _ => hP
  | cons call rest ih =>
    intro pool hP hq
    simp only [handOffTo]
    split
    · -- nothing available: the loop ends here
      exact hP
    · rename_i path leased hok
      exact ih _ (hstep pool leased call rest path hP hq hok) rfl

/-- The rule of the rejection loop. -/
theorem rejectWaiters_invariant (P : WorkerPool → Prop) (pool : WorkerPool)
    (error : JobError) (h : P pool)
    (hstep : ∀ (pool : WorkerPool) (call : Nat) (rest : List Nat),
      P pool → pool.waiters = call :: rest →
      P ({ pool with waiters := rest }.settleWaiter call (.rejected error))) :
    P (pool.rejectWaiters error) := by
  -- on the queue, which the definition goes down from the front
  suffices ∀ queue pool, P pool → pool.waiters = queue → P (rejectEach error pool queue) from
    this _ pool h rfl
  intro queue
  induction queue with
  | nil => exact fun _ hP _ => hP
  | cons call rest ih =>
    intro pool hP hq
    simp only [rejectEach]
    exact ih _ (hstep pool call rest hP hq) rfl

/-- A hand-off leaves someone queued only when no worker is available. -/
theorem handOff_exhausts (pool : WorkerPool) (now : Millis)
    (h : (pool.handOff now).waiters ≠ []) :
    ∀ w ∈ (pool.handOff now).workers, w.available = false := by
  suffices ∀ queue pool, pool.waiters = queue → (handOffTo now pool queue).waiters ≠ [] →
      ∀ w ∈ (handOffTo now pool queue).workers, w.available = false from
    this _ pool rfl h
  intro queue
  induction queue with
  | nil => exact fun pool hq h => absurd hq h
  | cons call rest ih =>
    intro pool _
    simp only [handOffTo]
    split
    · -- the loop has stopped early: `acquire` threw
      rename_i herr
      exact fun _ => acquire_error herr
    · exact ih _ rfl

/-- A hand-off serves the queue from its front: the calls it resolves, followed by those
    it leaves queued, are the queue it found. -/
theorem handOff_serves (pool : WorkerPool) (now : Millis) :
    ∃ grants : List (Nat × String),
      pool.waiters = grants.map Prod.fst ++ (pool.handOff now).waiters ∧
      (pool.handOff now).settled =
        pool.settled ++ grants.map fun g => (g.1, .resolved g.2) := by
  refine handOff_invariant (fun after => ∃ grants : List (Nat × String),
      pool.waiters = grants.map Prod.fst ++ after.waiters ∧
      after.settled = pool.settled ++ grants.map fun g => (g.1, .resolved g.2))
    pool now ⟨[], by simp, by simp⟩ ?_
  rintro after leased call rest path ⟨grants, hqueue, hset⟩ hq hok
  -- the call served now comes after those served before
  refine ⟨grants ++ [(call, path)], by simp [hqueue, hq], ?_⟩
  simp [acquire_settled hok, hset]

/-- `rejectWaiters` empties the queue. -/
theorem rejectWaiters_waiters (pool : WorkerPool) (error : JobError) :
    (pool.rejectWaiters error).waiters = [] := by
  suffices ∀ queue pool, pool.waiters = queue → (rejectEach error pool queue).waiters = [] from
    this _ pool rfl
  intro queue
  induction queue with
  | nil => exact fun pool hq => hq
  | cons call rest ih => exact fun pool _ => ih _ rfl

/-- `rejectWaiters` touches no worker. -/
theorem rejectWaiters_workers (pool : WorkerPool) (error : JobError) :
    (pool.rejectWaiters error).workers = pool.workers :=
  rejectWaiters_invariant (fun after => after.workers = pool.workers) pool error rfl
    fun _ _ _ h _ => h

end ContractPinger.WorkerPool
