import ContractPinger.ForStd.Machine
import ContractPinger.Spec.WorkerPoolOps

/-!
# Why a caller is refused

`all_busy` tells a caller that patience helps, `all_underfunded` that it does not. On
arrival the pool answers by the workers it has. A caller who queues is answered `all_busy`
when its timer fires, whatever has become of the workers by then: a `setBalance` may have
found the last funded one short, and a `reconcile` may have freed it without serving the
queue. This file proves that these two are the only way a reason goes wrong.

## Key results

- `acquire_reason`: the reason given on arrival fits the workers
- `reasonsHold_iff_honest`: every reason fits, and nobody waits in vain, exactly when a
  queue has a funded worker occupied
- `reasons_hold_iff`: a run keeps it so exactly when none of its steps strands the queue
-/

namespace ContractPinger.WorkerPool

open Machine

variable {pool after leased : WorkerPool} {path : String} {now : Millis}
  {reason : NoWorkerReason}

/-- What a reason says of the workers. -/
def Justifies (pool : WorkerPool) : NoWorkerReason → Prop
  | .allBusy =>
    ∃ w ∈ pool.workers, w.underfunded = false ∧ (w.busy = true ∨ w.pendingNonce ≠ none)
  | .allUnderfunded => ∀ w ∈ pool.workers, w.underfunded = true

/-- The promise settlements an operation makes. -/
def settledBy (pool : WorkerPool) (op : Op) : List (Nat × Settlement) :=
  ((pool.step op).elim [] fun after => after.settled).drop pool.settled.length

/-- The operation makes `acquire` throw with the reason, or rejects the promise of an
    `acquireWithin` with it, on arrival or when the timer fires. -/
def Refuses (pool : WorkerPool) (reason : NoWorkerReason) : Op → Prop
  | .acquire now => pool.acquire now = .error reason
  | .acquireWithin call now =>
    (call, .rejected (.noWorkerAvailable reason)) ∈ pool.settledBy (.acquireWithin call now)
  | .expire call =>
    (call, .rejected (.noWorkerAvailable reason)) ∈ pool.settledBy (.expire call)
  | _ => False

/-- Whatever happens next, a reason it is answered with fits the workers; and nobody is
    queued while every worker is underfunded. -/
def ReasonsHold (pool : WorkerPool) : Prop :=
  (∀ op reason, pool.Refuses reason op → pool.Justifies reason) ∧
    (pool.waiters ≠ [] → ∃ w ∈ pool.workers, w.underfunded = false)

/-- No other worker than the one of `path` is funded and occupied. -/
def LastOccupied (pool : WorkerPool) (path : String) : Prop :=
  ((pool.workers.eraseP fun w => w.path == path).any Worker.willFreeUp) = false

/-- While somebody is queued, a `setBalance` that finds the last worker to wait for short,
    or a `reconcile` that lifts its quarantine. -/
def Strands (pool : WorkerPool) : Op → Prop
  | .setBalance path balanceWei minBalanceWei =>
    pool.waiters ≠ [] ∧ pool.LastOccupied path ∧ balanceWei < minBalanceWei
  | .reconcile path hasOutstanding =>
    pool.waiters ≠ [] ∧ pool.LastOccupied path ∧ hasOutstanding = false ∧
      ∃ w, pool.worker? path = some w ∧ w.busy = false
  | _ => False

/-- A queue has a funded worker to wait for. -/
def Honest (pool : WorkerPool) : Prop :=
  pool.waiters ≠ [] → pool.workers.any Worker.willFreeUp = true

/-! ## The workers behind a reason -/

/-- `all_busy` says that some worker will free up. -/
theorem justifies_allBusy_iff :
    pool.Justifies .allBusy ↔ pool.workers.any Worker.willFreeUp = true := by
  simp [Justifies, Worker.willFreeUp, Option.isSome_iff_ne_none]

/-- A funded worker is idle and on offer, or will be. -/
theorem available_or_willFreeUp {w : Worker} (h : w.underfunded = false) :
    w.available = true ∨ w.willFreeUp = true := by
  -- funded: idle and free of a quarantine, or occupied by one of the two
  cases hbusy : w.busy <;> cases hmark : w.pendingNonce <;>
    simp [Worker.available, Worker.willFreeUp, h, hbusy, hmark]

/-- An available worker, once leased, is one to wait for. -/
theorem lease_willFreeUp {w : Worker} (h : w.available = true) :
    (w.lease now).willFreeUp = true := by
  simp only [Worker.available, Bool.and_eq_true, Bool.not_eq_true'] at h
  simp [Worker.lease, Worker.willFreeUp, h.1.2]

/-- `acquire` says `all_busy` exactly when a funded worker is occupied. -/
theorem acquire_reason (h : pool.acquire now = .error reason) :
    reason = if pool.workers.any Worker.willFreeUp then .allBusy else .allUnderfunded := by
  simp only [acquire] at h
  split at h
  · cases h
    rfl
  · cases h

/-- The reason `acquire` throws with fits the workers. -/
theorem acquire_justified (h : pool.acquire now = .error reason) : pool.Justifies reason := by
  have hreason := acquire_reason h
  split at hreason
  · rename_i hany
    rw [hreason, justifies_allBusy_iff]
    exact hany
  · rename_i hnone
    rw [hreason]
    intro w hw
    -- a funded worker is not available, so it is occupied, and waiting would help
    by_contra hfunded
    rw [Bool.not_eq_true] at hfunded
    have hunavailable := acquire_error h w hw
    have hoccupied := available_or_willFreeUp hfunded
    rw [hunavailable] at hoccupied
    exact hnone (List.any_eq_true.mpr ⟨w, hw, hoccupied.resolve_left Bool.false_ne_true⟩)

/-- Whoever takes a worker leaves one to wait for. -/
theorem acquire_willFreeUp (h : pool.acquire now = .ok (path, leased)) :
    leased.workers.any Worker.willFreeUp = true := by
  obtain ⟨candidate, hfind, -, rfl⟩ := acquire_ok h
  refine List.any_eq_true.mpr ⟨candidate.lease now, List.modifyFirst_find hfind, ?_⟩
  exact lease_willFreeUp (List.find?_some hfind)

/-- A hand-off that leaves somebody queued leaves a funded worker to wait for, if any
    worker is funded. -/
theorem handOff_willFreeUp (hfunded : ∃ w ∈ pool.workers, w.underfunded = false)
    (hqueued : (pool.handOff now).waiters ≠ []) :
    (pool.handOff now).workers.any Worker.willFreeUp = true := by
  -- a hand-off only ever leases funded workers
  have hstill : ∃ w ∈ (pool.handOff now).workers, w.underfunded = false := by
    apply handOff_invariant (fun pool => ∃ w ∈ pool.workers, w.underfunded = false)
    · exact hfunded
    · intro pool leased call rest path _ _ hok
      obtain ⟨w, hw, hoccupied⟩ := List.any_eq_true.mp (acquire_willFreeUp hok)
      simp only [Worker.willFreeUp, Bool.and_eq_true, Bool.not_eq_true'] at hoccupied
      exact ⟨w, hw, hoccupied.1⟩
  obtain ⟨w, hw, hunder⟩ := hstill
  have hunavailable := handOff_exhausts pool now hqueued w hw
  have hoccupied := available_or_willFreeUp hunder
  rw [hunavailable] at hoccupied
  exact List.any_eq_true.mpr ⟨w, hw, hoccupied.resolve_left Bool.false_ne_true⟩

/-! ## Timers -/

/-- Whoever leaves the queue takes the timer along. -/
private theorem timers_dequeue {call : Nat} {rest : List Nat} {outcome : Settlement}
    (h : pool.timers = pool.waiters) (hq : pool.waiters = call :: rest) :
    (({ pool with waiters := rest } : WorkerPool).settleWaiter call outcome).timers = rest := by
  show pool.timers.erase call = rest
  rw [h, hq, List.erase_cons_head]

/-- Every queued call has its timer, and no other call has one. -/
theorem timers_step {op : Op} (h : pool.timers = pool.waiters) (hs : pool.step op = some after) :
    after.timers = after.waiters := by
  cases op with
  | acquire now =>
    simp only [step] at hs
    split at hs <;> cases hs
    · rename_i hok
      obtain ⟨_, _, _, rfl⟩ := acquire_ok hok
      exact h
    · exact h
  | acquireWithin call now =>
    simp only [step, Option.some.injEq, acquireWithin] at hs
    split at hs <;> cases hs
    · rename_i hok
      obtain ⟨_, _, _, rfl⟩ := acquire_ok hok
      exact h
    · exact h
    · show pool.timers ++ [call] = pool.waiters ++ [call]
      rw [h]
  | expire call =>
    simp only [step, Option.ite_none_right_eq_some, Option.some.injEq] at hs
    obtain ⟨-, rfl⟩ := hs
    show pool.timers.erase call = pool.waiters.erase call
    rw [h]
  | release path now =>
    cases hs
    -- handing off takes a waiter and its timer together, each time
    apply handOff_invariant (fun pool => pool.timers = pool.waiters)
    · exact h
    · intro pool leased call rest path h hq hok
      obtain ⟨_, _, _, rfl⟩ := acquire_ok hok
      exact timers_dequeue h hq
  | rejectWaiters error =>
    cases hs
    apply rejectWaiters_invariant (fun pool => pool.timers = pool.waiters)
    · exact h
    · intro pool call rest h hq
      exact timers_dequeue h hq
  | quarantine path nonce => cases hs; exact h
  | reconcile path hasOutstanding => cases hs; exact h
  | setBalance path balanceWei minBalanceWei => cases hs; exact h
  | setAddress path address => cases hs; exact h

/-! ## When every reason fits -/

/-- A caller is answered `all_underfunded` on arrival only. -/
theorem refuses_acquireWithin {call : Nat} (h : pool.Refuses reason (.acquireWithin call now)) :
    pool.acquire now = .error reason := by
  have hmem : (call, .rejected (.noWorkerAvailable reason)) ∈
      (pool.acquireWithin call now).settled.drop pool.settled.length := h
  unfold acquireWithin at hmem
  split at hmem
  · rename_i hok
    simp [acquire_settled hok] at hmem
  · rename_i herr
    simp only [settle_settled, List.drop_left, List.mem_singleton, Prod.mk.injEq,
      Settlement.rejected.injEq, JobError.noWorkerAvailable.injEq, true_and] at hmem
    rw [herr, hmem]
  · simp at hmem

/-- A timer that fires refuses, and always with `all_busy`. -/
theorem refuses_expire {call : Nat} :
    pool.Refuses reason (.expire call) ↔ call ∈ pool.timers ∧ reason = .allBusy := by
  by_cases hpending : call ∈ pool.timers <;>
    simp [Refuses, settledBy, step, expire, hpending]

/-- Every reason fits, and nobody waits in vain, exactly when a queue has a funded worker
    to wait for. -/
theorem reasonsHold_iff_honest (htimers : pool.timers = pool.waiters) :
    pool.ReasonsHold ↔ pool.Honest := by
  constructor
  · intro h hqueued
    obtain ⟨call, hcall⟩ := List.exists_mem_of_ne_nil _ hqueued
    rw [← htimers] at hcall
    -- the timer of a queued call may fire now
    have hrefuses : pool.Refuses .allBusy (.expire call) := refuses_expire.mpr ⟨hcall, rfl⟩
    exact justifies_allBusy_iff.mp (h.1 (.expire call) .allBusy hrefuses)
  · intro h
    constructor
    · intro op reason hrefuses
      cases op with
      | acquire now => exact acquire_justified hrefuses
      | acquireWithin call now => exact acquire_justified (refuses_acquireWithin hrefuses)
      -- a queued call has a funded worker to wait for
      | expire call =>
        obtain ⟨hcall, rfl⟩ := refuses_expire.mp hrefuses
        rw [htimers] at hcall
        exact justifies_allBusy_iff.mpr (h (List.ne_nil_of_mem hcall))
      | _ => exact hrefuses.elim
    · intro hqueued
      obtain ⟨w, hw, hoccupied⟩ := List.any_eq_true.mp (h hqueued)
      simp only [Worker.willFreeUp, Bool.and_eq_true, Bool.not_eq_true'] at hoccupied
      exact ⟨w, hw, hoccupied.1⟩

/-! ## Which steps strand the queue -/

/-- Who is to wait for, after one worker has changed. -/
theorem willFreeUp_modifyWorker (f : Worker → Worker) :
    (pool.modifyWorker path f).workers.any Worker.willFreeUp = true ↔
      (∃ w, pool.worker? path = some w ∧ (f w).willFreeUp = true) ∨ ¬ pool.LastOccupied path := by
  rw [modifyWorker, List.any_modifyFirst, Bool.or_eq_true, Option.any_eq_true, LastOccupied,
    Bool.not_eq_false]
  rfl

/-- Who is to wait for: the worker of a path, or another. -/
theorem willFreeUp_iff :
    pool.workers.any Worker.willFreeUp = true ↔
      (∃ w, pool.worker? path = some w ∧ w.willFreeUp = true) ∨ ¬ pool.LastOccupied path := by
  rw [List.any_eq_find_or_eraseP (fun w => w.path == path), Bool.or_eq_true,
    Option.any_eq_true, LastOccupied, Bool.not_eq_false]
  rfl

/-- Changing a worker in a way that leaves an occupied one occupied and funded. -/
theorem Honest.modifyWorker (h : pool.Honest) {f : Worker → Worker}
    (hf : ∀ w, w.willFreeUp = true → (f w).willFreeUp = true) :
    (pool.modifyWorker path f).Honest := by
  intro hqueued
  have hbefore := h hqueued
  rw [@willFreeUp_iff pool path] at hbefore
  rw [willFreeUp_modifyWorker]
  refine hbefore.imp_left fun hw => ?_
  obtain ⟨w, hw, hoccupied⟩ := hw
  exact ⟨w, hw, hf w hoccupied⟩

/-- Changing a worker strands the queue exactly when it was the last one to wait for, and
    is not any more. -/
theorem honest_modifyWorker_iff (h : pool.Honest) {f : Worker → Worker} {P : Prop}
    (hf : ∀ w, pool.worker? path = some w → w.willFreeUp = true →
      ((f w).willFreeUp = true ↔ ¬ P)) :
    (pool.modifyWorker path f).Honest ↔
      ¬ (pool.waiters ≠ [] ∧ pool.LastOccupied path ∧ P) := by
  -- with nobody else to wait for, it is this worker that is waited for
  have hlast : pool.waiters ≠ [] → pool.LastOccupied path →
      ∃ w, pool.worker? path = some w ∧ w.willFreeUp = true := by
    intro hqueued hlast
    exact (willFreeUp_iff.mp (h hqueued)).resolve_right (not_not_intro hlast)
  constructor
  · intro hafter hstrands
    obtain ⟨hqueued, hothers, hP⟩ := hstrands
    obtain ⟨w, hw, hoccupied⟩ := hlast hqueued hothers
    obtain ⟨w', hw', hafter⟩ :=
      ((willFreeUp_modifyWorker f).mp (hafter hqueued)).resolve_right (not_not_intro hothers)
    rw [hw] at hw'
    cases hw'
    exact (hf w hw hoccupied).mp hafter hP
  · intro hno hqueued
    rw [willFreeUp_modifyWorker]
    by_cases hothers : pool.LastOccupied path
    · obtain ⟨w, hw, hoccupied⟩ := hlast hqueued hothers
      have hnot : ¬ P := fun hP => hno ⟨hqueued, hothers, hP⟩
      exact .inl ⟨w, hw, (hf w hw hoccupied).mpr hnot⟩
    · exact .inr hothers

/-- A balance keeps the queue honest unless it finds the last worker to wait for short. -/
private theorem honest_setBalance (h : pool.Honest) (path : String)
    (balanceWei minBalanceWei : Nat) :
    (pool.setBalance path balanceWei minBalanceWei).Honest ↔
      ¬ pool.Strands (.setBalance path balanceWei minBalanceWei) := by
  apply honest_modifyWorker_iff h
  intro w _ hoccupied
  simp only [Worker.willFreeUp, Bool.and_eq_true] at hoccupied ⊢
  simp [hoccupied.2]

/-- A reconciliation does unless it lifts that worker's quarantine and hands it to nobody. -/
private theorem honest_reconcile (h : pool.Honest) (path : String) (hasOutstanding : Bool) :
    (pool.reconcile path hasOutstanding).Honest ↔
      ¬ pool.Strands (.reconcile path hasOutstanding) := by
  apply honest_modifyWorker_iff h
  intro w hw hoccupied
  simp only [hw, Option.some.injEq, exists_eq_left']
  simp only [Worker.willFreeUp, Bool.and_eq_true, Bool.not_eq_true', Bool.or_eq_true] at hoccupied
  cases hasOutstanding with
  | true => simp [Worker.willFreeUp, hoccupied]
  | false =>
    cases hbusy : w.busy with
    | true =>
      -- a busy worker is waited for whether its quarantine is lifted or not
      simp only [Bool.true_eq_false, and_false, not_false_eq_true, iff_true]
      split <;> simp [Worker.willFreeUp, hoccupied.1, hbusy]
    | false =>
      -- not busy, so it is its quarantine that it is waited for
      have hmark : w.pendingNonce.isSome = true := by simpa [hbusy] using hoccupied.2
      simp [Worker.willFreeUp, hmark]

/-- A call queues behind a worker there is to wait for. -/
private theorem honest_acquireWithin (h : pool.Honest) (call : Nat) (now : Millis) :
    (pool.acquireWithin call now).Honest := by
  unfold acquireWithin
  split
  · rename_i path leased hok
    intro _
    show leased.workers.any Worker.willFreeUp = true
    exact acquire_willFreeUp hok
  · exact h
  · rename_i herr
    intro _
    show pool.workers.any Worker.willFreeUp = true
    exact justifies_allBusy_iff.mp (acquire_justified herr)

/-- A release that leaves somebody queued leaves somebody to wait for. -/
private theorem honest_release (h : pool.Honest) (path : String) (now : Millis) :
    (pool.release path now).Honest := by
  intro hqueued
  refine handOff_willFreeUp ?_ hqueued
  -- somebody was queued before, so some worker was funded, and still is
  have hbefore : pool.waiters ≠ [] := by
    intro hnil
    obtain ⟨grants, hserved, _⟩ :=
      handOff_serves (pool.modifyWorker path fun w => { w with busy := false }) now
    rw [modifyWorker_waiters, hnil, List.nil_eq, List.append_eq_nil_iff] at hserved
    exact hqueued hserved.2
  obtain ⟨w, hw, hoccupied⟩ := List.any_eq_true.mp (h hbefore)
  simp only [Worker.willFreeUp, Bool.and_eq_true, Bool.not_eq_true'] at hoccupied
  have hfunds : (pool.modifyWorker path fun w => { w with busy := false }).workers.map
      Worker.underfunded = pool.workers.map Worker.underfunded := by
    apply List.map_modifyFirst
    intro w
    rfl
  have hmem : false ∈ pool.workers.map Worker.underfunded :=
    List.mem_map.mpr ⟨w, hw, hoccupied.1⟩
  rw [← hfunds] at hmem
  exact List.mem_map.mp hmem

/-- From a state in which a queue has somebody to wait for, a step keeps it so unless it
    strands the queue. -/
theorem honest_step_iff {op : Op} (h : pool.Honest) (hs : pool.step op = some after) :
    after.Honest ↔ ¬ pool.Strands op := by
  cases op with
  | acquire now =>
    simp only [Strands, not_false_eq_true, iff_true]
    simp only [step] at hs
    split at hs <;> cases hs
    · rename_i hok
      -- the address just leased will free up
      exact fun _ => acquire_willFreeUp hok
    · exact h
  | acquireWithin call now =>
    simp only [Strands, not_false_eq_true, iff_true]
    cases hs
    exact honest_acquireWithin h call now
  | expire call =>
    simp only [Strands, not_false_eq_true, iff_true]
    simp only [step, Option.ite_none_right_eq_some, Option.some.injEq] at hs
    obtain ⟨-, rfl⟩ := hs
    intro hqueued
    -- with a waiter less there were waiters before
    apply h
    intro hnil
    apply hqueued
    show pool.waiters.erase call = []
    rw [hnil]
    rfl
  | release path now =>
    simp only [Strands, not_false_eq_true, iff_true]
    cases hs
    exact honest_release h path now
  | quarantine path nonce =>
    simp only [Strands, not_false_eq_true, iff_true]
    cases hs
    -- an address put in quarantine still frees up, once it is reconciled
    apply h.modifyWorker
    intro w hoccupied
    simp only [Worker.willFreeUp, Bool.and_eq_true] at hoccupied ⊢
    simp [hoccupied.1]
  | reconcile path hasOutstanding =>
    cases hs
    -- the two operations that can strand a waiter, and do just when the condition says so
    exact honest_reconcile h path hasOutstanding
  | setBalance path balanceWei minBalanceWei =>
    cases hs
    exact honest_setBalance h path balanceWei minBalanceWei
  | setAddress path address =>
    simp only [Strands, not_false_eq_true, iff_true]
    cases hs
    exact h.modifyWorker fun w hoccupied => hoccupied
  | rejectWaiters error =>
    simp only [Strands, not_false_eq_true, iff_true]
    cases hs
    -- nobody is left waiting
    exact fun hqueued => absurd (rejectWaiters_waiters pool error) hqueued

/-! ## Whole runs -/

/-- A run of any operations keeps every reason fitting, and lets nobody wait in vain,
    exactly when none of its steps strands the queue. -/
theorem reasons_hold_iff (paths : List String) (ops : List Op) :
    Always step ReasonsHold (new paths) ops ↔
      Along step (fun pool op => ¬ pool.Strands op) (new paths) ops := by
  apply always_iff_along_of (J := fun pool => pool.timers = pool.waiters)
  · exact fun _ _ _ h hs => timers_step h hs
  · intro pool op after htimers h hs
    have hhonest := (reasonsHold_iff_honest htimers).mp h
    rw [reasonsHold_iff_honest (timers_step htimers hs)]
    exact honest_step_iff hhonest hs
  · rfl
  · rw [reasonsHold_iff_honest rfl]
    exact fun hqueued => absurd rfl hqueued

/-- The run in which a balance check finds the last funded address short, past a queued
    caller. -/
def drainedOps : List Op := [.acquire 0, .acquireWithin 1 1, .setBalance "load-0" 0 1]

/-- The pool it ends in: call 1 is queued and the only worker is underfunded. -/
def drained : WorkerPool :=
  { workers :=
      [{ path := "load-0", busy := true, underfunded := true, leases := 1, lastLeasedAt := some 0 }]
    waiters := [1]
    timers := [1] }

/-- The queued call waits in vain, and is told `all_busy` when its timer fires. -/
theorem drained_pool_reports_busy :
    exec step (new (buildPaths "load" 1)) drainedOps = some drained ∧
      drained.Refuses .allBusy (.expire 1) ∧ (∀ w ∈ drained.workers, w.underfunded = true) ∧
      ¬ Always step ReasonsHold (new (buildPaths "load" 1)) drainedOps := by
  have hexec : exec step (new (buildPaths "load" 1)) drainedOps = some drained := by decide
  refine ⟨hexec, refuses_expire.mpr ⟨by decide, rfl⟩, by decide, ?_⟩
  intro h
  have hreasons : drained.ReasonsHold := h.last hexec
  exact absurd (hreasons.2 (by decide)) (by decide)

end ContractPinger.WorkerPool
