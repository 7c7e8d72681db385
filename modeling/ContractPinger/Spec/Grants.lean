import ContractPinger.Spec.LeaseSafety

/-!
# Who is granted an address

Leasing changes what a worker's `busy` flag and counters say and nothing else, and only
addresses that are funded and not quarantined are leased. The standing of a pool is its
workers with the marks of a lease wiped off: everything else that is known about them.

## Key results

- `LeasesOnly`: the operations that lease or give back keep the standing, and grant only
  paths that are fit in it
- `onPool_cases`: a call on the pool leases only, or changes the standing and grants nothing
-/

namespace ContractPinger

/-- A worker as if nobody had ever leased it. -/
def Worker.unleased (w : Worker) : Worker :=
  { w with busy := false, leases := 0, lastLeasedAt := none }

@[simp] theorem Worker.unleased_path (w : Worker) : w.unleased.path = w.path := rfl

@[simp] theorem Worker.unleased_address (w : Worker) : w.unleased.address = w.address := rfl

@[simp] theorem Worker.unleased_lease (now : Millis) (w : Worker) :
    (w.lease now).unleased = w.unleased := rfl

/-- An available worker is funded and not quarantined. -/
theorem Worker.unleased_available {w : Worker} (h : w.available = true) :
    w.unleased.available = true := by
  simp only [available, unleased, Bool.and_eq_true] at h ⊢
  exact ⟨⟨rfl, h.1.2⟩, h.2⟩

namespace WorkerPool

/-- What is known about the workers, whoever leases them. -/
def standing (pool : WorkerPool) : List Worker := pool.workers.map Worker.unleased

/-- The path may be granted: its worker is funded and not quarantined. -/
def Fit (pool : WorkerPool) (path : String) : Prop :=
  ∃ w ∈ pool.standing, w.path = path ∧ w.available = true

/-- The standing has every path, in the pool's order. -/
theorem standing_paths (pool : WorkerPool) : pool.standing.map Worker.path = pool.paths := by
  rw [standing, List.map_map]
  rfl

/-- The path of a fit worker is one of the pool's. -/
theorem Fit.mem_paths {pool : WorkerPool} {path : String} (h : pool.Fit path) :
    path ∈ pool.paths := by
  obtain ⟨w, hw, rfl, _⟩ := h
  rw [← pool.standing_paths]
  exact List.mem_map_of_mem hw

/-- The standing stays, and every promise settled on the way with a path has a fit one. -/
structure LeasesOnly (pool pool' : WorkerPool) : Prop where
  standing : pool'.standing = pool.standing
  settled : ∃ new, pool'.settled = pool.settled ++ new ∧
    ∀ call path, (call, .resolved path) ∈ new → pool.Fit path

namespace LeasesOnly

variable {pool pool' pool'' : WorkerPool}

/-- What is fit to be leased stays so. -/
theorem fit_iff (h : LeasesOnly pool pool') (path : String) : pool'.Fit path ↔ pool.Fit path := by
  rw [Fit, Fit, h.standing]

/-- An operation that settles nothing. -/
theorem of_eq (hstanding : pool'.standing = pool.standing)
    (hsettled : pool'.settled = pool.settled) : LeasesOnly pool pool' :=
  ⟨hstanding, [], by simp [hsettled], by simp⟩

/-- Doing nothing. -/
theorem refl (pool : WorkerPool) : LeasesOnly pool pool := of_eq rfl rfl

/-- One operation after another. -/
theorem trans (h : LeasesOnly pool pool') (h' : LeasesOnly pool' pool'') :
    LeasesOnly pool pool'' := by
  obtain ⟨new, hnew, hfit⟩ := h.settled
  obtain ⟨new', hnew', hfit'⟩ := h'.settled
  refine ⟨h'.standing.trans h.standing, new ++ new', ?_, ?_⟩
  · rw [hnew', hnew, List.append_assoc]
  · intro call path hmem
    rcases List.mem_append.mp hmem with hmem | hmem
    · exact hfit call path hmem
    · exact (h.fit_iff path).mp (hfit' call path hmem)

/-- Settling a promise with an error, and with the queue and the timers as they may be. -/
theorem reject (pool : WorkerPool) (waiters timers : List Nat) (call : Nat) (error : JobError) :
    LeasesOnly pool ({ pool with waiters, timers }.settle call (.rejected error)) := by
  refine ⟨rfl, [(call, .rejected error)], rfl, ?_⟩
  intro call' path hmem
  simp at hmem

/-- Acquiring leases a fit worker. -/
theorem acquire {leased : WorkerPool} {now : Millis} {path : String}
    (h : pool.acquire now = .ok (path, leased)) :
    leased.standing = pool.standing ∧ leased.settled = pool.settled ∧ pool.Fit path := by
  have hsettled := acquire_settled h
  obtain ⟨candidate, hfind, hpath, rfl⟩ := acquire_ok h
  -- the marks of the lease are just what `unleased` wipes off
  refine ⟨?_, hsettled, candidate.unleased, ?_, hpath, ?_⟩
  · exact List.map_modifyFirst (Worker.unleased_lease now) _
  · exact List.mem_map_of_mem (List.mem_of_find?_eq_some hfind)
  · exact Worker.unleased_available (List.find?_some hfind)

/-- Asking for a worker grants a fit one, or none. -/
theorem acquireWithin (pool : WorkerPool) (call : Nat) (now : Millis) :
    LeasesOnly pool (pool.acquireWithin call now) := by
  unfold WorkerPool.acquireWithin
  split
  · rename_i path leased hok
    obtain ⟨hstanding, hsettled, hfit⟩ := acquire hok
    refine ⟨hstanding, [(call, .resolved path)], ?_, ?_⟩
    · rw [settle_settled, hsettled]
    · intro call' path' hmem
      simp only [List.mem_singleton, Prod.mk.injEq, Settlement.resolved.injEq] at hmem
      rw [hmem.2]
      exact hfit
  · exact reject pool pool.waiters pool.timers call _
  · exact of_eq rfl rfl

/-- A timer grants nothing. -/
theorem expire (pool : WorkerPool) (call : Nat) : LeasesOnly pool (pool.expire call) :=
  reject pool _ _ call _

/-- The next in the queue is granted a fit one. -/
theorem handOff (pool : WorkerPool) (now : Millis) : LeasesOnly pool (pool.handOff now) := by
  refine handOff_invariant (LeasesOnly pool) pool now (refl pool) ?_
  intro pool' leased call rest path h _ hok
  obtain ⟨hstanding, hsettled, hfit⟩ := acquire hok
  refine h.trans ⟨hstanding, [(call, .resolved path)], ?_, ?_⟩
  · rw [settleWaiter_settled, hsettled]
  · intro call' path' hmem
    simp only [List.mem_singleton, Prod.mk.injEq, Settlement.resolved.injEq] at hmem
    rw [hmem.2]
    exact hfit

/-- A release hands the worker on only if it is fit. -/
theorem release (pool : WorkerPool) (path : String) (now : Millis) :
    LeasesOnly pool (pool.release path now) := by
  -- `busy` is one of the marks of a lease, so freeing the worker changes no standing
  have hfreed : LeasesOnly pool (pool.modifyWorker path fun w => { w with busy := false }) := by
    refine of_eq (List.map_modifyFirst (fun w => ?_) pool.workers) rfl
    rfl
  exact hfreed.trans (handOff _ now)

/-- The shutdown grants nothing. -/
theorem rejectWaiters (pool : WorkerPool) (error : JobError) :
    LeasesOnly pool (pool.rejectWaiters error) := by
  refine rejectWaiters_invariant (LeasesOnly pool) pool error (refl pool) ?_
  intro pool' call rest h _
  exact h.trans (reject pool' rest _ call error)

end LeasesOnly

/-- What assigning to a worker does to the standing. -/
theorem modifyWorker_standing (pool : WorkerPool) (path : String) {f : Worker → Worker}
    (hf : ∀ w, (f w).unleased = f w.unleased) : (pool.modifyWorker path f).standing =
      pool.standing.modifyFirst (fun w => w.path == path) f := by
  show (pool.workers.modifyFirst (fun w => w.path == path) f).map Worker.unleased =
    (pool.workers.map Worker.unleased).modifyFirst (fun w => w.path == path) f
  -- the path of a worker, by which it is found, is not a mark of the lease
  induction pool.workers with
  | nil => rfl
  | cons w rest ih =>
    rw [List.modifyFirst, List.map_cons, List.modifyFirst, Worker.unleased_path]
    split
    · rw [List.map_cons, hf]
    · rw [List.map_cons, ih]

end WorkerPool

/-- What a call does to the standing of a worker with its path. -/
def Effect.mark : Effect → Option (String × (Worker → Worker))
  | .setBalance path balanceWei minBalanceWei =>
    some (path, fun w => { w with balanceWei, underfunded := decide (balanceWei < minBalanceWei) })
  | .quarantine path nonce => some (path, fun w => { w with pendingNonce := some nonce })
  | .reconcile path hasOutstanding =>
    some (path, fun w =>
      if w.pendingNonce.isSome && !hasOutstanding then { w with pendingNonce := none } else w)
  | _ => none

/-- A mark does not depend on the lease. -/
theorem Effect.mark_unleased {effect : Effect} {path : String} {f : Worker → Worker}
    (h : effect.mark = some (path, f)) (w : Worker) : (f w).unleased = f w.unleased := by
  cases effect <;> simp only [mark, Option.some.injEq, Prod.mk.injEq, reduceCtorEq] at h <;>
    obtain ⟨rfl, rfl⟩ := h
  · rfl
  · rfl
  · -- `reconcile` looks at the quarantine, which no lease touches
    by_cases hlift : w.pendingNonce.isSome && !‹Bool›
    · simp [Worker.unleased, hlift]
    · simp [Worker.unleased, hlift]

/-- A call on the pool leases only, or marks one worker and settles nothing. -/
theorem Effect.onPool_cases (effect : Effect) (now : Millis) (pool : WorkerPool) :
    effect.mark = none ∧ WorkerPool.LeasesOnly pool (effect.onPool now pool) ∨
      ∃ path f, effect.mark = some (path, f) ∧
        effect.onPool now pool = pool.modifyWorker path f := by
  cases effect with
  | acquireWithin job => exact .inl ⟨rfl, .acquireWithin pool job now⟩
  | release path => exact .inl ⟨rfl, .release pool path now⟩
  -- these three are assignments through `find`
  | setBalance path _ _ => exact .inr ⟨path, _, rfl, rfl⟩
  | quarantine path _ => exact .inr ⟨path, _, rfl, rfl⟩
  | reconcile path _ => exact .inr ⟨path, _, rfl, rfl⟩
  | update _ _ => exact .inl ⟨rfl, .refl pool⟩
  | fail _ _ _ => exact .inl ⟨rfl, .refl pool⟩
  | began _ _ => exact .inl ⟨rfl, .refl pool⟩

/-- The promises a call settles with a path have a fit one, and the call moves a lease. -/
theorem Effect.onPool_settled (effect : Effect) (now : Millis) (pool : WorkerPool) :
    ∃ new, (effect.onPool now pool).settled = pool.settled ++ new ∧
      ∀ call path, (call, .resolved path) ∈ new →
        pool.Fit path ∧ effect.movesLease = true := by
  have hquiet : (effect.onPool now pool).settled = pool.settled →
      ∃ new, (effect.onPool now pool).settled = pool.settled ++ new ∧
        ∀ call path, (call, .resolved path) ∈ new →
          pool.Fit path ∧ effect.movesLease = true :=
    fun h => ⟨[], by simp [h], nofun⟩
  cases effect with
  | acquireWithin job =>
    obtain ⟨new, hnew, hfit⟩ := (WorkerPool.LeasesOnly.acquireWithin pool job now).settled
    exact ⟨new, hnew, fun call path hmem => ⟨hfit call path hmem, rfl⟩⟩
  | release path =>
    obtain ⟨new, hnew, hfit⟩ := (WorkerPool.LeasesOnly.release pool path now).settled
    exact ⟨new, hnew, fun call path hmem => ⟨hfit call path hmem, rfl⟩⟩
  -- no other call settles a promise
  | _ => exact hquiet rfl

end ContractPinger
