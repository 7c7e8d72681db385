import ContractPinger.ForStd.Machine
import ContractPinger.Spec.WorkerPoolOps

/-!
# The address queue: wake-ups and order of arrival

A caller waits in the queue only because no worker is available. `release` serves the
queue before a new arrival can take the freed address; `reconcile` and `setBalance` also
make workers available, and do not. This file proves that these two are the only way
the queue goes unserved, and that wherever it is served, addresses are granted in order
of arrival.

## Key results

- `queueServed_step_iff`: a step keeps the queue served unless it is a `FreesUnserved` one
- `queue_in_order_iff`: a run keeps the queue served and in order exactly when none of its
  steps is
-/

namespace ContractPinger.WorkerPool

open Machine

/-- Nobody is queued while a worker is available. -/
def QueueServed (pool : WorkerPool) : Prop :=
  pool.waiters ≠ [] → ∀ w ∈ pool.workers, w.available = false

/-- A `reconcile` that lifts the quarantine of an idle funded worker, or a `setBalance`
    that leaves an idle unquarantined worker funded, while somebody is queued. -/
def FreesUnserved (pool : WorkerPool) : Op → Prop
  | .reconcile path hasOutstanding =>
    pool.waiters ≠ [] ∧ hasOutstanding = false ∧ ∃ w, pool.worker? path = some w ∧
      w.busy = false ∧ w.underfunded = false ∧ w.pendingNonce ≠ none
  | .setBalance path balanceWei minBalanceWei =>
    pool.waiters ≠ [] ∧ minBalanceWei ≤ balanceWei ∧ ∃ w, pool.worker? path = some w ∧
      w.busy = false ∧ w.pendingNonce = none
  | _ => False

/-- The calls granted a worker by the settlements made since `before`. -/
def grantedSince (before after : WorkerPool) : List Nat :=
  (after.settled.drop before.settled.length).filterMap fun entry =>
    match entry.2 with
    | .resolved _ => some entry.1
    | .rejected _ => none

/-- The call that arrives with an operation, behind everyone queued. -/
def Op.arrival : Op → List Nat
  | .acquireWithin call _ => [call]
  | _ => []

/-- The step obtains no worker for an arrival while an earlier call is queued, and grants
    workers to queued calls from the front. -/
def GrantsInOrder (pool : WorkerPool) (op : Op) : Prop :=
  (∀ now path leased, op = .acquire now ∨ (∃ call, op = .acquireWithin call now) →
    pool.acquire now = .ok (path, leased) → pool.waiters = []) ∧
  ∀ after, pool.step op = some after →
    pool.grantedSince after <+: pool.waiters ++ op.arrival

/-! ## Which steps leave the queue served -/

/-- While the queue is served, an acquisition succeeds only with nobody queued. -/
theorem QueueServed.waiters_nil {pool leased : WorkerPool} (h : pool.QueueServed)
    {now : Millis} {path : String} (hok : pool.acquire now = .ok (path, leased)) :
    pool.waiters = [] := by
  by_contra hne
  exact not_acquire_ok (h hne) hok

/-- Changing one worker in a way that does not make it available keeps the queue served. -/
theorem QueueServed.modifyWorker {pool : WorkerPool} (h : pool.QueueServed) {path : String}
    {f : Worker → Worker}
    (hf : pool.waiters ≠ [] → ∀ w, pool.worker? path = some w → (f w).available = false) :
    (pool.modifyWorker path f).QueueServed := by
  intro hne w hw
  rcases List.mem_modifyFirst hw with hw | ⟨a, ha, rfl⟩
  · exact h hne w hw
  · exact hf hne a ha

/-- Making a worker available with somebody queued leaves the queue unserved. -/
theorem not_queueServed_modifyWorker {pool : WorkerPool} {path : String} {f : Worker → Worker}
    {w : Worker} (hne : pool.waiters ≠ []) (hw : pool.worker? path = some w)
    (hf : (f w).available = true) : ¬ (pool.modifyWorker path f).QueueServed := by
  intro h
  rw [h hne (f w) (List.modifyFirst_find hw)] at hf
  cases hf

/-- A reconciliation leaves the queue served unless it frees a worker. -/
private theorem queueServed_reconcile {pool : WorkerPool} (h : pool.QueueServed)
    (path : String) (hasOutstanding : Bool) :
    (pool.reconcile path hasOutstanding).QueueServed ↔
      ¬ pool.FreesUnserved (.reconcile path hasOutstanding) := by
  constructor
  · rintro hserved ⟨hne, rfl, w, hw, hbusy, hfunds, hmark⟩
    refine not_queueServed_modifyWorker hne hw ?_ hserved
    simp [Worker.available, hbusy, hfunds, Option.isSome_iff_ne_none.mpr hmark]
  · intro hfree
    refine h.modifyWorker fun hne w hw => ?_
    have hold := h hne w (List.mem_of_find?_eq_some hw)
    split
    · -- the quarantine is lifted: the worker must be busy or underfunded
      rename_i hlift
      simp only [Bool.and_eq_true, Bool.not_eq_true', Option.isSome_iff_ne_none] at hlift
      by_contra havail
      simp only [Worker.available, Option.isNone_none, Bool.and_true, Bool.not_eq_false,
        Bool.and_eq_true, Bool.not_eq_true'] at havail
      exact hfree ⟨hne, hlift.2, w, hw, havail.1, havail.2, hlift.1⟩
    · exact hold

/-- So does a balance. -/
private theorem queueServed_setBalance {pool : WorkerPool} (h : pool.QueueServed)
    (path : String) (balanceWei minBalanceWei : Nat) :
    (pool.setBalance path balanceWei minBalanceWei).QueueServed ↔
      ¬ pool.FreesUnserved (.setBalance path balanceWei minBalanceWei) := by
  constructor
  · rintro hserved ⟨hne, hle, w, hw, hbusy, hmark⟩
    refine not_queueServed_modifyWorker hne hw ?_ hserved
    simp [Worker.available, hbusy, hmark, Nat.not_lt.mpr hle]
  · intro hfree
    refine h.modifyWorker fun hne w hw => ?_
    by_contra havail
    simp only [Worker.available, Bool.not_eq_false, Bool.and_eq_true, Bool.not_eq_true',
      decide_eq_false_iff_not, Option.isNone_iff_eq_none, Nat.not_lt] at havail
    exact hfree ⟨hne, havail.1.2, w, hw, havail.1.1, havail.2⟩

/-- From a state with the queue served, a step leaves it served unless the step frees a
    worker without serving it. -/
theorem queueServed_step_iff {pool after : WorkerPool} {op : Op} (h : pool.QueueServed)
    (hstep : pool.step op = some after) :
    after.QueueServed ↔ ¬ pool.FreesUnserved op := by
  -- what an acquisition finds available it may take only with nobody queued
  cases op with
  | acquire now =>
    simp only [step] at hstep
    split at hstep <;> cases hstep
    · rename_i path leased hok
      simp [QueueServed, FreesUnserved, acquire_waiters hok, h.waiters_nil hok]
    · simp [FreesUnserved, h]
  | acquireWithin call now =>
    simp only [step, Option.some.injEq, acquireWithin] at hstep
    split at hstep <;> cases hstep
    · rename_i path leased hok
      simp [QueueServed, FreesUnserved, acquire_waiters hok, h.waiters_nil hok]
    · simpa [QueueServed, FreesUnserved] using h
    · -- a call that is queued found no worker available
      rename_i herr
      simpa [QueueServed, FreesUnserved] using acquire_error herr
  | expire call =>
    simp only [step] at hstep
    split at hstep
    · cases hstep
      simp only [FreesUnserved, not_false_eq_true, iff_true]
      intro hne
      exact h fun hnil => hne (by simp [expire, hnil])
    · cases hstep
  | release path now =>
    cases hstep
    simp only [FreesUnserved, not_false_eq_true, iff_true]
    -- `handOff` leaves someone queued only with nothing available
    exact fun hne => handOff_exhausts _ now hne
  | quarantine path nonce =>
    cases hstep
    simp only [FreesUnserved, not_false_eq_true, iff_true]
    -- a quarantined worker is not available
    exact h.modifyWorker fun _ w _ => by simp [Worker.available]
  | reconcile path hasOutstanding =>
    cases hstep
    exact queueServed_reconcile h path hasOutstanding
  | setBalance path balanceWei minBalanceWei =>
    cases hstep
    exact queueServed_setBalance h path balanceWei minBalanceWei
  | setAddress path address =>
    cases hstep
    simp only [FreesUnserved, not_false_eq_true, iff_true]
    exact h.modifyWorker fun hne w hw => h hne w (List.mem_of_find?_eq_some hw)
  | rejectWaiters error =>
    cases hstep
    simp [QueueServed, FreesUnserved, rejectWaiters_waiters]

/-! ## Order of arrival -/

@[simp] theorem grantedSince_self (pool : WorkerPool) : pool.grantedSince pool = [] := by
  simp [grantedSince]

/-- The calls granted since are those of the settlements that were added. -/
private theorem grantedSince_of_append {pool after : WorkerPool}
    {added : List (Nat × Settlement)} (h : after.settled = pool.settled ++ added) :
    pool.grantedSince after = added.filterMap fun entry =>
      match entry.2 with
      | .resolved _ => some entry.1
      | .rejected _ => none := by
  simp [grantedSince, h]

/-- Rejecting the waiters grants nothing. -/
private theorem rejectWaiters_grants (pool : WorkerPool) (error : JobError) :
    pool.grantedSince (pool.rejectWaiters error) = [] := by
  obtain ⟨calls, hcalls⟩ := rejectWaiters_invariant
    (fun after => ∃ calls : List Nat,
      after.settled = pool.settled ++ calls.map fun call => (call, .rejected error))
    pool error ⟨[], by simp⟩
    (fun after call rest ⟨calls, h⟩ _ => ⟨calls ++ [call], by simp [h]⟩)
  rw [grantedSince_of_append hcalls]
  simp

/-- While the queue is served, every step grants workers in order of arrival. -/
theorem QueueServed.grantsInOrder {pool : WorkerPool} (h : pool.QueueServed) (op : Op) :
    pool.GrantsInOrder op := by
  refine ⟨fun now path leased _ hok => h.waiters_nil hok, fun after hstep => ?_⟩
  cases op with
  | acquire now =>
    simp only [step] at hstep
    split at hstep <;> cases hstep
    · rename_i path leased hok
      simp [grantedSince, acquire_settled hok]
    · simp
  | acquireWithin call now =>
    simp only [step, Option.some.injEq, acquireWithin] at hstep
    split at hstep <;> cases hstep
    · rename_i path leased hok
      simp [grantedSince, acquire_settled hok, h.waiters_nil hok, Op.arrival]
    · simp [grantedSince]
    · simp [grantedSince]
  | expire call =>
    simp only [step] at hstep
    split at hstep
    · cases hstep
      simp [grantedSince, expire]
    · cases hstep
  | release path now =>
    cases hstep
    -- what is granted is a front of the queue
    obtain ⟨grants, hqueue, hset⟩ := handOff_serves
      (pool.modifyWorker path fun w => { w with busy := false }) now
    rw [modifyWorker_waiters] at hqueue
    simp only [release, grantedSince, hset, modifyWorker_settled, List.drop_left, hqueue]
    simp [List.filterMap_map]
  | quarantine path nonce => cases hstep; simp [grantedSince, quarantine]
  | reconcile path hasOutstanding => cases hstep; simp [grantedSince, reconcile]
  | setBalance path balanceWei minBalanceWei => cases hstep; simp [grantedSince, setBalance]
  | setAddress path address => cases hstep; simp [grantedSince, setAddress]
  | rejectWaiters error => cases hstep; simp [rejectWaiters_grants]

/-! ## Whole runs -/

/-- A run of any operations keeps the queue served, and grants addresses in order of
    arrival, exactly when none of its steps frees a worker without serving the queue. -/
theorem queue_in_order_iff (paths : List String) (ops : List Op) :
    (Always step QueueServed (new paths) ops ∧
        Along step GrantsInOrder (new paths) ops) ↔
      Along step (fun pool op => ¬ pool.FreesUnserved op) (new paths) ops := by
  have hinit : (new paths).QueueServed := fun hne => absurd rfl hne
  have hiff : Always step QueueServed (new paths) ops ↔
      Along step (fun pool op => ¬ pool.FreesUnserved op) (new paths) ops :=
    always_iff_along (fun _ _ _ h hs => queueServed_step_iff h hs) ops hinit
  rw [← hiff]
  exact ⟨And.left, fun h => ⟨h, h.along fun _ op hserved => hserved.grantsInOrder op⟩⟩

/-- The run in which a quarantined address returns to service past a queued caller. -/
def overtakingOps : List Op :=
  [.acquire 0, .acquireWithin 1 1, .quarantine "load-0" 7, .release "load-0" 2,
    .reconcile "load-0" false]

/-- The pool it ends in: call 1 is queued and the only worker is available. -/
def overtaken : WorkerPool :=
  { workers := [{ path := "load-0", leases := 1, lastLeasedAt := some 0 }]
    waiters := [1]
    timers := [1] }

/-- That run leaves the queue unserved, and the `acquire` that arrives next overtakes
    the queued call. -/
theorem overtaking_breaks_order :
    ¬ Always step QueueServed (new (buildPaths "load" 1)) overtakingOps ∧
      ¬ Along step GrantsInOrder (new (buildPaths "load" 1))
        (overtakingOps ++ [.acquire 3]) := by
  have hexec : exec step (new (buildPaths "load" 1)) overtakingOps = some overtaken := by
    decide
  constructor
  · intro h
    have hserved : overtaken.QueueServed := h.last hexec
    exact absurd (hserved (by decide) _ (List.mem_singleton_self _)) (by decide)
  · intro h
    have horder := ((Along.of_exec h hexec) _ rfl).1.1
    exact absurd (horder 3 "load-0" _ (.inl rfl) rfl) (by decide)

end ContractPinger.WorkerPool
