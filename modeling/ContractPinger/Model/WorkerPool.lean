import ContractPinger.Model.Basic
import ContractPinger.ForStd.List

/-!
# The pool of derivation paths

`src/utils/workerPool.ts`. A pool owns one Ethereum address for each path and a queue of
callers waiting for one. The promise an `acquireWithin` call returns is identified by
the number of the call; `settled` records, in order, every `resolve` and `reject`
made on such a promise, and `timers` the `setTimeout` handles neither fired nor cleared.
-/

namespace ContractPinger

/-- `interface Worker`. -/
structure Worker where
  path : String
  address : Hex := "0x"
  busy : Bool := false
  underfunded : Bool := false
  pendingNonce : Option Nat := none
  balanceWei : Nat := 0
  leases : Nat := 0
  lastLeasedAt : Option Millis := none
deriving DecidableEq, Repr

namespace Worker

/-- What `acquire` looks for: idle, funded and not quarantined. -/
def available (w : Worker) : Bool :=
  !w.busy && !w.underfunded && w.pendingNonce.isNone

/-- A funded worker that is occupied and will come back. -/
def willFreeUp (w : Worker) : Bool :=
  !w.underfunded && (w.busy || w.pendingNonce.isSome)

/-- The marks `acquire` leaves on the worker it hands out. -/
def lease (now : Millis) (w : Worker) : Worker :=
  { w with busy := true, leases := w.leases + 1, lastLeasedAt := some now }

end Worker

/-- How the promise of an `acquireWithin` call was settled. -/
inductive Settlement
  | resolved (path : String)
  | rejected (error : JobError)
deriving DecidableEq, Repr

/-- `class WorkerPool`. -/
structure WorkerPool where
  workers : List Worker
  /-- The queue of waiters, by the number of their call. -/
  waiters : List Nat := []
  timers : List Nat := []
  settled : List (Nat × Settlement) := []
deriving DecidableEq, Repr

namespace WorkerPool

/-- The constructor: one idle worker for each path. -/
def new (paths : List String) : WorkerPool :=
  { workers := paths.map fun path => { path } }

/-- `get size()`. -/
def size (pool : WorkerPool) : Nat := pool.workers.length

/-- The paths of `all()`, in order. -/
def paths (pool : WorkerPool) : List String := pool.workers.map Worker.path

/-- `this.workers.find(w => w.path === path)`. -/
def worker? (pool : WorkerPool) (path : String) : Option Worker :=
  pool.workers.find? fun w => w.path == path

/-- Assign through the result of that `find`; nothing happens for an unknown path. -/
def modifyWorker (pool : WorkerPool) (path : String) (f : Worker → Worker) : WorkerPool :=
  { pool with workers := pool.workers.modifyFirst (fun w => w.path == path) f }

def setAddress (pool : WorkerPool) (path : String) (address : Hex) : WorkerPool :=
  pool.modifyWorker path fun w => { w with address }

def setBalance (pool : WorkerPool) (path : String) (balanceWei minBalanceWei : Nat) :
    WorkerPool :=
  pool.modifyWorker path fun w =>
    { w with balanceWei, underfunded := decide (balanceWei < minBalanceWei) }

def quarantine (pool : WorkerPool) (path : String) (nonce : Nat) : WorkerPool :=
  pool.modifyWorker path fun w => { w with pendingNonce := some nonce }

def reconcile (pool : WorkerPool) (path : String) (hasOutstanding : Bool) : WorkerPool :=
  pool.modifyWorker path fun w =>
    if w.pendingNonce.isSome && !hasOutstanding then { w with pendingNonce := none } else w

def quarantined (pool : WorkerPool) : List Worker :=
  pool.workers.filter fun w => w.pendingNonce.isSome

/-- Take an idle, funded worker: its path and the pool that has leased it. -/
def acquire (pool : WorkerPool) (now : Millis) : Except NoWorkerReason (String × WorkerPool) :=
  match pool.workers.find? Worker.available with
  | none =>
    -- nothing is idle and funded: waiting helps only if a funded worker will come back
    .error (if pool.workers.any Worker.willFreeUp then .allBusy else .allUnderfunded)
  | some candidate =>
    .ok (candidate.path,
      -- the first available worker is the candidate itself
      { pool with workers := pool.workers.modifyFirst Worker.available (Worker.lease now) })

/-- Settle the promise of a call. -/
def settle (pool : WorkerPool) (call : Nat) (outcome : Settlement) : WorkerPool :=
  { pool with settled := pool.settled ++ [(call, outcome)] }

/-- `waiter.resolve` and `waiter.reject`: both clear the waiter's timer first. -/
def settleWaiter (pool : WorkerPool) (call : Nat) (outcome : Settlement) : WorkerPool :=
  { pool with timers := pool.timers.erase call }.settle call outcome

/-- Only a busy pool is waited for: an empty wallet is not resolved by patience. -/
def acquireWithin (pool : WorkerPool) (call : Nat) (now : Millis) : WorkerPool :=
  match pool.acquire now with
  | .ok (path, leased) => leased.settle call (.resolved path)
  -- the exception of `acquire` rejects the promise at once
  | .error .allUnderfunded => pool.settle call (.rejected (.noWorkerAvailable .allUnderfunded))
  | .error .allBusy =>
    -- the promise stays pending; its timer bounds the wait
    { pool with waiters := pool.waiters ++ [call], timers := pool.timers ++ [call] }

/-- The callback of a waiter's timer. -/
def expire (pool : WorkerPool) (call : Nat) : WorkerPool :=
  { pool with
    waiters := pool.waiters.erase call
    timers := pool.timers.erase call }.settle call (.rejected (.noWorkerAvailable .allBusy))

/-- The loop of `handOff`, over the waiters still queued: acquire, `shift`, `resolve`. -/
def handOffTo (now : Millis) (pool : WorkerPool) : List Nat → WorkerPool
  | [] => pool
  | call :: rest =>
    match pool.acquire now with
    | .error _ => pool -- nothing available; the waiters stay queued
    | .ok (path, leased) =>
      handOffTo now ({ leased with waiters := rest }.settleWaiter call (.resolved path)) rest

/-- Give freed addresses to anyone waiting, before a new arrival can take one. -/
def handOff (pool : WorkerPool) (now : Millis) : WorkerPool :=
  handOffTo now pool pool.waiters

def release (pool : WorkerPool) (path : String) (now : Millis) : WorkerPool :=
  (pool.modifyWorker path fun w => { w with busy := false }).handOff now

/-- The loop of `rejectWaiters`: `shift`, `reject`. -/
def rejectEach (error : JobError) (pool : WorkerPool) : List Nat → WorkerPool
  | [] => pool
  | call :: rest =>
    rejectEach error ({ pool with waiters := rest }.settleWaiter call (.rejected error)) rest

/-- Abandon anyone still waiting. -/
def rejectWaiters (pool : WorkerPool) (error : JobError) : WorkerPool :=
  rejectEach error pool pool.waiters

/-- The settlement of a call's promise: the first `resolve` or `reject` made on it. -/
def settlement (pool : WorkerPool) (call : Nat) : Option Settlement :=
  pool.settled.lookup call

/-! ## The pool as a machine -/

/-- Everything that can happen to a pool. -/
inductive Op
  | acquire (now : Millis)
  | acquireWithin (call : Nat) (now : Millis)
  | expire (call : Nat)
  | release (path : String) (now : Millis)
  | quarantine (path : String) (nonce : Nat)
  | reconcile (path : String) (hasOutstanding : Bool)
  | setBalance (path : String) (balanceWei minBalanceWei : Nat)
  | setAddress (path : String) (address : Hex)
  | rejectWaiters (error : JobError)
deriving DecidableEq, Repr

/-- One operation. Only a pending timer can fire; an `acquire` that throws changes nothing. -/
def step (pool : WorkerPool) : Op → Option WorkerPool
  | .acquire now =>
    match pool.acquire now with
    | .ok (_, leased) => some leased
    | .error _ => some pool
  | .acquireWithin call now => some (pool.acquireWithin call now)
  | .expire call => if call ∈ pool.timers then some (pool.expire call) else none
  | .release path now => some (pool.release path now)
  | .quarantine path nonce => some (pool.quarantine path nonce)
  | .reconcile path hasOutstanding => some (pool.reconcile path hasOutstanding)
  | .setBalance path balanceWei minBalanceWei =>
    some (pool.setBalance path balanceWei minBalanceWei)
  | .setAddress path address => some (pool.setAddress path address)
  | .rejectWaiters error => some (pool.rejectWaiters error)

end WorkerPool

/-- `buildPaths`: one path for each slot. -/
def buildPaths (pathPrefix : String) (count : Nat) : List String :=
  (List.range count).map fun i => pathPrefix ++ "-" ++ toString i

end ContractPinger
