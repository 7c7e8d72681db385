import ContractPinger.Spec.FailureRecords
import ContractPinger.Spec.Shutdown

/-!
# What a shutdown is recorded as

`abortActiveJobs` reaches a job on four routes: it rejects the queued waiter, it aborts the
signature wait or the respond wait, or it trips a check between two phases. Each route has an
error and a `catch` of its own, and only that of the last knows of the shutdown: the other three
record `internal_error`, `signature_timeout` and `respond_timeout`.

## Key results

- `Frame.resume_tells`: the route of a resumption decides the failure recorded for it
- `told_exec`: over a whole run, every job fails with the reason of its route
- `ended_after_abort`: a job ends on one of the routes only after `abortActiveJobs`
- `shutdown_recorded_iff`: the jobs whose shutdown is recorded as one
-/

namespace ContractPinger

open Machine

/-- What `abortActiveJobs` rejects a queued waiter with. -/
def shuttingDown : JobError := .other { message := "Process is shutting down" }

/-! ## The routes -/

/-- The ways in which `abortActiveJobs` ends a job. -/
inductive ShutdownRoute
  | queuedWaiter
  | signatureWait
  | respondWait
  | phaseCheck
deriving DecidableEq, Repr

/-- The failure recorded for a job that ends on the route. -/
def ShutdownRoute.reason : ShutdownRoute → FailureReason
  | .queuedWaiter => .internalError
  | .signatureWait => .signatureTimeout
  | .respondWait => .respondTimeout
  | .phaseCheck => .shutdown

/-- Only the check between two phases is recorded as a shutdown. -/
theorem ShutdownRoute.reason_eq_shutdown {route : ShutdownRoute} :
    route.reason = .shutdown ↔ route = .phaseCheck := by
  cases route <;> simp [reason]

namespace Frame

/-- The answer takes the code to a call of `abortIfShuttingDown`. -/
def reachesCheck (s : Setup) (view : RunView) (f : Frame) : Pc → Reply → Bool
  | .refreshingUnderfunded [], .resume => true
  | .readingBalance, .balance balance => !decide (balance < s.env.bidirectional.minBalanceWei)
  | .estimatingGas balance nonce fees, .gas estimate =>
    f.worker.any fun path =>
      let built := assembleTransaction s.libs s.environment f.mode (view.pool.address path)
        (s.env.bidirectional.erc20Address.getD s.environment.erc20) nonce fees estimate
      !decide (balance < built.gasCostWei)
  | _, _ => false

/-- The route on which a job that resumes is ended by `abortActiveJobs`, if it is. -/
def shutdownRoute (s : Setup) (view : RunView) (job : Nat) (f : Frame) :
    Pc → Reply → Option ShutdownRoute
  | .leasing, .resume =>
    if view.pool.settlement job = some (.rejected shuttingDown) then some .queuedWaiter else none
  | .awaitingSignature _, .throw e =>
    if f.aborted = some abortError ∧ e = abortError then some .signatureWait else none
  | .responding, .throw e =>
    if f.aborted = some abortError ∧ e = abortError then some .respondWait else none
  | pc, reply =>
    if f.reachesCheck s view pc reply && f.aborted.isSome then some .phaseCheck else none

end Frame

/-- The failure the job ends with, once it is known: `start` records what `run()` rejects with. -/
def Pc.verdict? (calls : List Effect) : Pc → Option FailureReason
  | .rejected e => some e.failureReason
  | .ended => (failures calls).getLast?
  | _ => none

/-- The verdict on a job is read off its failures. -/
theorem Pc.verdict?_congr {calls calls' : List Effect} (h : failures calls' = failures calls)
    (pc : Pc) : pc.verdict? calls' = pc.verdict? calls := by
  cases pc with
  | ended => exact congrArg List.getLast? h
  | _ => rfl

/-- There is none on a job that runs. -/
theorem Pc.verdict?_of_running {pc : Pc} (h : pc.leg ≠ .over) (calls : List Effect) :
    pc.verdict? calls = none := by
  cases pc with
  | rejected | ended => exact absurd rfl h
  | _ => rfl

/-- Where a job stands and the calls made tell of the route it has come on, if any. -/
structure Tells (came : ShutdownRoute → Prop) (pc : Pc) (calls : List Effect) : Prop where
  reason : ∀ route, came route → pc.verdict? calls = some route.reason
  shutdown : pc.verdict? calls = some .shutdown → came .phaseCheck
  silent : pc ≠ .ended → failures calls = []

namespace Tells

variable {came came' : ShutdownRoute → Prop} {pc : Pc} {calls : List Effect}

/-- Without a route, a job ends with another failure or with none. -/
theorem of_none (hnone : ∀ route, ¬ came route) (hverdict : pc.verdict? calls ≠ some .shutdown)
    (hsilent : pc ≠ .ended → failures calls = []) : Tells came pc calls :=
  ⟨fun route hcame => absurd hcame (hnone route), fun hshutdown => absurd hshutdown hverdict,
    hsilent⟩

/-- With one, it ends with the failure of the route. -/
theorem of_route (route : ShutdownRoute) (hverdict : pc.verdict? calls = some route.reason)
    (hsilent : pc ≠ .ended → failures calls = []) : Tells (route = ·) pc calls := by
  refine ⟨?_, ?_, hsilent⟩
  · rintro other rfl
    exact hverdict
  · intro hshutdown
    rw [hverdict] at hshutdown
    exact ShutdownRoute.reason_eq_shutdown.mp (Option.some.inj hshutdown)

/-- It is told of the routes, however they are described. -/
theorem congr (h : Tells came pc calls) (hcame : ∀ route, came' route ↔ came route) :
    Tells came' pc calls :=
  ⟨fun route hroute => h.reason route ((hcame route).mp hroute),
    fun hshutdown => (hcame _).mpr (h.shutdown hshutdown), h.silent⟩

end Tells

namespace Frame

/-! ## One resumption -/

section Ways

variable {f g : Frame} {pc : Pc} {effects : List Effect} {route : Option ShutdownRoute}

@[simp] theorem failures_releaseLease (f : Frame) : failures f.releaseLease.2 = [] := by
  unfold releaseLease
  split <;> rfl

/-- The `finally` block fails no job. -/
theorem failures_finish : failures (f.finish pc effects).2 = failures effects := by
  show failures (effects ++ f.releaseLease.2) = _
  rw [failures_append, failures_releaseLease, List.append_nil]

/-- Going on, with nothing failed. -/
theorem tells_await (hnone : route = none) (hpc : pc.leg ≠ .over)
    (heffects : failures effects = []) :
    Tells (route = some ·) (g.await pc effects).1.pc (g.await pc effects).2 :=
  .of_none (by simp [hnone]) (by simp [await, Pc.verdict?_of_running hpc]) fun _ => heffects

/-- Returning, with the failure that was recorded. -/
theorem tells_returns (verdict : Option FailureReason) (hnone : route = none)
    (heffects : (failures effects).getLast? = verdict) (hverdict : verdict ≠ some .shutdown) :
    Tells (route = some ·) (f.returns effects).1.pc (f.returns effects).2 := by
  refine .of_none (by simp [hnone]) ?_ fun hpc => absurd rfl hpc
  show (failures (f.finish .ended effects).2).getLast? ≠ _
  rwa [failures_finish, heffects]

/-- Throwing anything but a `ShutdownError`. -/
theorem tells_throws {error : JobError} (hnone : route = none)
    (herror : error.failureReason ≠ .shutdown) :
    Tells (route = some ·) (f.throws error []).1.pc (f.throws error []).2 := by
  refine .of_none (by simp [hnone]) ?_ fun _ => failures_finish
  show some error.failureReason ≠ _
  simpa using herror

/-- What a library throws is unanticipated. -/
theorem tells_throws_other {e : JsError} (hnone : route = none) :
    Tells (route = some ·) (f.throws (.other e) []).1.pc (f.throws (.other e) []).2 :=
  tells_throws hnone (by simp [JobError.failureReason])

/-- `abortIfShuttingDown` throws a `ShutdownError`, and nothing else does. -/
theorem tells_proceed {before : List Effect} (hpc : pc.leg ≠ .over)
    (hbefore : failures before = []) (heffects : failures effects = [])
    (hroute : route = if f.aborted.isSome then some .phaseCheck else none) :
    Tells (route = some ·) (f.proceed pc before effects).1.pc (f.proceed pc before effects).2 := by
  rw [hroute]
  unfold proceed
  split
  · refine (Tells.of_route .phaseCheck rfl fun _ => failures_finish.trans hbefore).congr ?_
    simp
  · exact tells_await rfl hpc (by rw [failures_append, hbefore, heffects]; rfl)

/-- A build that failed is none of the routes. -/
theorem tells_buildFailed {job balance : Nat} {path : String} {e : JsError}
    (hnone : route = none) :
    Tells (route = some ·) (resumeLeased.buildFailed job path f balance e).1.pc
      (resumeLeased.buildFailed job path f balance e).2 := by
  unfold resumeLeased.buildFailed
  split
  · exact tells_returns (some .preflightUnderfunded) hnone rfl (by simp)
  · exact tells_throws_other hnone

/-- A wait that rejects: with the reason of the abort if `abortActiveJobs` aborted it. -/
theorem tells_wait {e : JsError} {error : JobError} {job : Nat} {g : Frame}
    (route : ShutdownRoute) (hroute : route ≠ .phaseCheck) :
    Tells ((if f.aborted = some abortError ∧ e = abortError then some route else none) = some ·)
      (g.returns [.fail job route.reason error]).1.pc
      (g.returns [.fail job route.reason error]).2 := by
  -- either the wait was ended by the shutdown, and its reason is the wait's own, or it failed
  split
  · have hlast : (failures (g.returns [.fail job route.reason error]).2).getLast? =
        some route.reason := by
      rw [returns, failures_finish]
      rfl
    have hroute : Tells (route = ·) .ended (g.returns [.fail job route.reason error]).2 :=
      .of_route route hlast fun hpc => absurd rfl hpc
    exact hroute.congr (by simp)
  · refine tells_returns (some route.reason) rfl rfl ?_
    rwa [ne_eq, Option.some.injEq, ShutdownRoute.reason_eq_shutdown]

end Ways

/-- From `leasing` on. -/
theorem resumeLeased_tells {s : Setup} {view : RunView} {job : Nat} {path : String} {f : Frame}
    {pc : Pc} {reply : Reply} {next : Frame × List Effect} (hworker : f.worker = some path)
    (h : f.resumeLeased s view job path pc reply = some next) :
    Tells (f.shutdownRoute s view job pc reply = some ·) next.1.pc next.2 := by
  cases resumeLeased_stretch h
  -- the preflight
  case poor balance hlt =>
    have hreach : f.reachesCheck s view .readingBalance (.balance balance) = false := by
      simp [reachesCheck, hlt]
    exact tells_returns (some .preflightUnderfunded) (by simp [shutdownRoute, hreach]) rfl (by simp)
  case funded balance hlt =>
    have hreach : f.reachesCheck s view .readingBalance (.balance balance) = true := by
      simp [reachesCheck, hlt]
    exact tells_proceed (by simp [Pc.leg]) rfl rfl (by simp [shutdownRoute, hreach])
  case balanceFailed e => exact tells_throws_other rfl
  -- the build
  case nonceRead => exact tells_await rfl (by simp [Pc.leg]) rfl
  case nonceFailed => exact tells_buildFailed rfl
  case unaffordable balance nonce fees estimate hlt =>
    have hreach : f.reachesCheck s view (.estimatingGas balance nonce fees) (.gas estimate) =
        false := by
      rw [reachesCheck, hworker]
      show (!decide (balance < (f.assembled s view path nonce fees estimate).gasCostWei)) = false
      rw [decide_eq_true hlt]
      rfl
    exact tells_returns (some .preflightUnderfunded) (by simp [shutdownRoute, hreach]) rfl (by simp)
  case built balance nonce fees estimate hlt =>
    have hreach : f.reachesCheck s view (.estimatingGas balance nonce fees) (.gas estimate) =
        true := by
      rw [reachesCheck, hworker]
      show (!decide (balance < (f.assembled s view path nonce fees estimate).gasCostWei)) = true
      rw [decide_eq_false hlt]
      rfl
    exact tells_proceed (by simp [Pc.leg]) rfl rfl (by simp [shutdownRoute, hreach])
  case estimateFailed => exact tells_buildFailed rfl
  -- the Solana send
  case instructed => exact tells_await rfl (by simp [Pc.leg]) rfl
  case uninstructed => exact tells_throws_other rfl
  case requested => exact tells_await rfl (by simp [Pc.leg]) rfl
  case unrequested => exact tells_throws_other rfl
  -- the signature
  case signed => exact tells_await rfl (by simp [Pc.leg]) rfl
  case unsigned => exact tells_wait .signatureWait (by simp)
  case unattached => exact tells_throws_other rfl
  case mismatched => exact tells_returns (some .derivationMismatch) rfl rfl (by simp)
  case verified => exact tells_await rfl (by simp [Pc.leg]) rfl
  -- broadcast and confirmation
  case broadcast => exact tells_await rfl (by simp [Pc.leg]) rfl
  case broadcastFailed => exact tells_returns (some .broadcastFailed) rfl rfl (by simp)
  case confirmed released effects hrel =>
    have heffects : failures effects = [] := by
      have hrelease := failures_releaseLease f
      rwa [hrel] at hrelease
    exact .of_none (by simp [shutdownRoute, reachesCheck]) (by simp [Pc.verdict?]) fun _ => heffects
  case reverted => exact tells_returns (some .transactionReverted) rfl rfl (by simp)
  case unconfirmed => exact tells_returns (some .confirmationTimeout) rfl rfl (by simp)
  -- the respond
  case unexpected => exact tells_returns (some .respondMismatch) rfl rfl (by simp)
  case responded => exact tells_returns none rfl rfl (by simp)
  case unresponded => exact tells_wait .respondWait (by simp)

/-- A run that has not rejected yet: its next resumption tells of the route it came on. -/
theorem resume_tells {s : Setup} {view : RunView} {job : Nat} {f : Frame} {reply : Reply}
    {next : Frame × List Effect} (hrun : f.pc.leg ≠ .over)
    (hpool : view.pool.settlement job ≠ some (.rejected .shutdown))
    (h : f.resume s view job reply = some next) :
    Tells (f.shutdownRoute s view job f.pc reply = some ·) next.1.pc next.2 := by
  cases resume_stretch h
  case asked hpc =>
    rw [hpc]
    exact tells_proceed (by simp [Pc.leg]) rfl rfl rfl
  -- the queue: a waiter is rejected for want of a worker, or by the shutdown
  case refused hpc e hset =>
    rw [hpc]
    by_cases hshutting : e = shuttingDown
    · subst hshutting
      have hroute : Tells (ShutdownRoute.queuedWaiter = ·) (.rejected shuttingDown)
          (f.throws shuttingDown []).2 := .of_route _ rfl fun _ => failures_finish
      exact hroute.congr (by simp [shutdownRoute, hset])
    · refine tells_throws (by simp [shutdownRoute, hset, hshutting]) ?_
      intro hreason
      cases e with
      | shutdown => exact hpool hset
      | noWorkerAvailable reason => cases reason <;> cases hreason
      | derivationMismatch | other => cases hreason
  case leased hpc path hset =>
    rw [hpc]
    exact tells_await (by simp [shutdownRoute, hset]) (by simp [Pc.leg]) rfl
  case recorded hpc => exact absurd (by rw [hpc]; rfl) hrun
  case works h => exact resumeLeased_tells ‹f.worker = some _› h
  -- the derivation and the two loops before the first check
  all_goals
    rw [‹f.pc = _›]
    first
      | exact tells_await rfl (by simp [Pc.leg]) rfl
      | exact tells_throws_other rfl

end Frame

/-! ## What a waiter is rejected with -/

namespace WorkerPool

/-- Every waiter rejected so far was rejected with an error of the kind. -/
def Rejects (kind : JobError → Prop) (pool : WorkerPool) : Prop :=
  ∀ call error, (call, .rejected error) ∈ pool.settled → kind error

namespace Rejects

variable {kind : JobError → Prop} {pool pool' : WorkerPool}

/-- An operation that settles nothing. -/
theorem of_eq (h : pool.Rejects kind) (hsettled : pool'.settled = pool.settled) :
    pool'.Rejects kind := by
  intro call error hmem
  rw [hsettled] at hmem
  exact h call error hmem

/-- A promise more, rejected with such an error or resolved. -/
theorem settle (h : pool.Rejects kind) (call : Nat) (outcome : Settlement)
    (hkind : ∀ error, outcome = .rejected error → kind error)
    (hsettled : pool'.settled = pool.settled ++ [(call, outcome)]) : pool'.Rejects kind := by
  intro i error hmem
  rw [hsettled] at hmem
  rcases List.mem_append.mp hmem with hold | hnew
  · exact h i error hold
  · have hentry := List.mem_singleton.mp hnew
    exact hkind error (congrArg Prod.snd hentry).symm

/-- All that are queued, rejected with such an error. -/
theorem rejectWaiters {error : JobError} (h : pool.Rejects kind) (herror : kind error) :
    (pool.rejectWaiters error).Rejects kind := by
  refine rejectWaiters_invariant (Rejects kind) pool error h ?_
  intro pool' call rest hpool _
  refine hpool.settle call (.rejected error) (fun e he => ?_) rfl
  cases he
  exact herror

/-- The pool itself rejects with a `NoWorkerAvailableError` only: with `all_busy` when a timer
    fires, with `all_underfunded` on arrival. -/
theorem expire (h : pool.Rejects kind) (hbusy : kind (.noWorkerAvailable .allBusy))
    (call : Nat) : (pool.expire call).Rejects kind := by
  refine h.settle call (.rejected (.noWorkerAvailable .allBusy)) (fun e he => ?_) rfl
  cases he
  exact hbusy

/-- A release rejects nobody. -/
theorem release (h : pool.Rejects kind) (path : String) (now : Millis) :
    (pool.release path now).Rejects kind := by
  refine handOff_invariant (Rejects kind) _ now (h.of_eq rfl) ?_
  intro pool' leased call rest granted hpool _ hok
  refine hpool.settle call (.resolved granted) (fun e he => ?_) ?_
  · cases he
  · rw [settleWaiter_settled, acquire_settled hok]

/-- A call is refused at once only where all are underfunded. -/
theorem acquireWithin (h : pool.Rejects kind) (call : Nat) {now : Millis}
    (hunderfunded : pool.acquire now = .error .allUnderfunded →
      kind (.noWorkerAvailable .allUnderfunded)) : (pool.acquireWithin call now).Rejects kind := by
  unfold WorkerPool.acquireWithin
  split
  · rename_i path leased hok
    refine h.settle call (.resolved path) (fun e he => ?_) ?_
    · cases he
    · rw [settle_settled, acquire_settled hok]
  · rename_i hnone
    refine h.settle call (.rejected (.noWorkerAvailable .allUnderfunded)) (fun e he => ?_) rfl
    cases he
    exact hunderfunded hnone
  · exact h.of_eq rfl

/-- Of the calls of `run()` only that one may reject. -/
theorem onPool (h : pool.Rejects kind) {effect : Effect} {now : Millis}
    (hunderfunded : ∀ job, effect = .acquireWithin job →
      pool.acquire now = .error .allUnderfunded → kind (.noWorkerAvailable .allUnderfunded)) :
    (effect.onPool now pool).Rejects kind := by
  cases effect with
  | acquireWithin job => exact h.acquireWithin job (hunderfunded job rfl)
  | release path => exact h.release path now
  | setBalance | quarantine | reconcile | update | fail | began => exact h.of_eq rfl

/-- And of a stretch of them. -/
theorem onPools (h : pool.Rejects kind) {effects : List Effect} (now : Millis)
    (hunderfunded : ∀ job, .acquireWithin job ∈ effects →
      kind (.noWorkerAvailable .allUnderfunded)) :
    (effects.foldl (fun pool effect => effect.onPool now pool) pool).Rejects kind := by
  induction effects generalizing pool with
  | nil => exact h
  | cons effect rest ih =>
    refine ih (h.onPool fun job hask _ => ?_) fun job hmem =>
      hunderfunded job (List.mem_cons_of_mem _ hmem)
    rw [hask] at hunderfunded
    exact hunderfunded job List.mem_cons_self

end Rejects

end WorkerPool

namespace World

/-- Who is rejected in a step: a waiter whose timer fires or whom `abortActiveJobs` rejects, or
    a job on arrival. -/
theorem step_rejects {s : Setup} {w w' : World} {a : Action} {kind : JobError → Prop}
    (hbusy : kind (.noWorkerAvailable .allBusy))
    (habort : a = .abortActiveJobs → kind shuttingDown)
    (hjob : ∀ job reply f next, a = .resume job reply → w.frames[job]? = some f →
      f.resume s w.view job reply = some next →
      (next.2.foldl (fun pool effect => effect.onPool w.now pool) w.pool).Rejects kind)
    (h : w.pool.Rejects kind) (hstep : step s w a = some w') : w'.pool.Rejects kind := by
  cases a with
  | start mode =>
    cases hstep
    exact h.of_eq (by rw [start_pool])
  | getWorkers =>
    cases hstep
    have hpool : (w.getWorkers s).pool = w.pool := ensureAddresses_pool w s
    exact h.of_eq (by rw [hpool])
  | resume job reply =>
    obtain ⟨f, f', effects, hf, hresume, rfl⟩ := step_resume hstep
    rw [performAll_pool]
    exact hjob job reply f (f', effects) rfl hf hresume
  | resumeRequest request reply =>
    obtain ⟨pc, pc', effects, _, hresume, rfl⟩ := step_resumeRequest hstep
    rw [performAll_pool]
    -- a request asks for no address
    refine h.onPools w.now fun job hmem => ?_
    cases resumeRequest_move hresume <;> simp at hmem
  | resumeDerivation index reply =>
    obtain ⟨pool, _, _, rfl, hpool⟩ := step_resumeDerivation hstep
    rcases hpool with rfl | ⟨_, derived, _, rfl, _⟩
    · exact h
    · exact applyAddresses_invariant (WorkerPool.Rejects kind) w.pool derived h
        fun pool path address hbefore => hbefore.of_eq rfl
  | expire job =>
    obtain ⟨_, rfl⟩ := step_expire hstep
    exact h.expire hbusy job
  | respondDeadline job =>
    obtain ⟨_, _, _, rfl⟩ := step_respondDeadline hstep
    exact h
  | abortActiveJobs =>
    cases hstep
    exact h.rejectWaiters (habort rfl)
  | clock now =>
    cases hstep
    exact h

/-! ## Who has aborted a job -/

/-- What a controller is aborted by, and a waiter rejected by, as long as the run goes on. -/
structure Attributed (s : Setup) (as : List Action) (w : World) : Prop where
  aborted : ∀ (job : Nat) (f : Frame), w.frames[job]? = some f → f.pc.leg ≠ .over →
    f.aborted = none ∨ .abortActiveJobs ∈ as ∨
      f.pc.leg = .settled ∧ f.aborted = some (respondDeadlineError s)
  rejects : w.pool.Rejects fun error =>
    (∃ reason, error = .noWorkerAvailable reason) ∨
      error = shuttingDown ∧ .abortActiveJobs ∈ as

end World

namespace Frame

/-- From `leasing` on. -/
theorem resumeLeased_settled {s : Setup} {view : RunView} {job : Nat} {path : String} {f : Frame}
    {pc : Pc} {reply : Reply} {next : Frame × List Effect} (hleg : pc.leg = .settled)
    (h : f.resumeLeased s view job path pc reply = some next) : next.1.pc.leg = .over := by
  cases resumeLeased_stretch h
  -- the respond wait is the last
  case unexpected => rfl
  case responded => rfl
  case unresponded => rfl
  all_goals cases hleg

/-- Out of the respond wait, the run is over. -/
theorem resume_settled {s : Setup} {view : RunView} {job : Nat} {f : Frame} {reply : Reply}
    {next : Frame × List Effect} (hleg : f.pc.leg = .settled)
    (h : f.resume s view job reply = some next) : next.1.pc.leg = .over := by
  cases resume_stretch h
  case works h => exact resumeLeased_settled hleg h
  all_goals
    rw [‹f.pc = _›] at hleg
    cases hleg

end Frame

namespace World

/-- A step aborts a controller, or rejects a waiter, for one of these causes. -/
theorem attributed_step {s : Setup} {as : List Action} {w w' : World} {a : Action}
    (htidy : ∀ (job : Nat) (f : Frame), w.frames[job]? = some f → f.Tidy s) (h : Attributed s as w)
    (hstep : step s w a = some w') : Attributed s (as ++ [a]) w' := by
  have hextend : .abortActiveJobs ∈ as → .abortActiveJobs ∈ as ++ [a] :=
    fun hmem => List.mem_append_left _ hmem
  refine ⟨?_, ?_⟩
  · intro job f' hf' hrun
    cases step_job hstep job with
    | absent _ hafter _ _ => simp [hafter] at hf'
    | accepted f _ _ _ hafter hfresh _ =>
      obtain rfl := Option.some.inj (hafter.symm.trans hf')
      exact .inl hfresh.aborted
    | resumed reply f g _ _ hbefore hafter hresume _ _ =>
      obtain rfl := Option.some.inj (hafter.symm.trans hf')
      rcases Frame.resume_minds hresume with ⟨_, hsame, hover⟩ | ⟨hover, _⟩
      · rw [hsame]
        rcases h.aborted job f hbefore (fun hleg => hrun (hover hleg)) with
          hnone | habort | ⟨hsettled, _⟩
        · exact .inl hnone
        · exact .inr (.inl (hextend habort))
        · exact absurd (Frame.resume_settled hsettled hresume) hrun
      · exact absurd hover hrun
    | stays f hbefore hafter _ _ _ =>
      obtain rfl := Option.some.inj (hafter.symm.trans hf')
      exact (h.aborted job f hbefore hrun).imp_right (Or.imp_left hextend)
    | deadline f _ hbefore hset hafter _ =>
      obtain rfl := Option.some.inj (hafter.symm.trans hf')
      -- the timer is set during the respond wait alone
      have hsettled : f.pc.leg = .settled := by
        by_contra hleg
        rw [(htidy job f hbefore).deadline hleg] at hset
        cases hset
      rcases h.aborted job f hbefore hrun with hnone | habort | ⟨_, hdeadline⟩
      · refine .inr (.inr ⟨hsettled, ?_⟩)
        show (f.aborted <|> some (respondDeadlineError s)) = _
        rw [hnone]
        rfl
      · exact .inr (.inl (hextend habort))
      · refine .inr (.inr ⟨hsettled, ?_⟩)
        show (f.aborted <|> some (respondDeadlineError s)) = _
        rw [hdeadline]
        rfl
    | aborted f habort _ _ _ _ =>
      rw [habort]
      exact .inr (.inl (List.mem_append_right _ List.mem_cons_self))
  · have hrejects : w.pool.Rejects fun error => (∃ reason, error = .noWorkerAvailable reason) ∨
        error = shuttingDown ∧ .abortActiveJobs ∈ as ++ [a] := by
      intro call error hmem
      refine (h.rejects call error hmem).imp_right fun hshutting => ?_
      exact ⟨hshutting.1, hextend hshutting.2⟩
    refine step_rejects (.inl ⟨_, rfl⟩) (fun habort => ?_) (fun _ _ _ _ _ _ _ => ?_) hrejects hstep
    · rw [habort]
      exact .inr ⟨rfl, List.mem_append_right _ List.mem_cons_self⟩
    · exact hrejects.onPools w.now fun _ _ => .inl ⟨_, rfl⟩

/-- The controller and the timer are looked after, in every run. -/
theorem tidy_exec {s : Setup} {start : Millis} {as : List Action} {w : World}
    (hexec : exec (step s) (World.new s start) as = some w) {job : Nat} {f : Frame}
    (hf : w.frames[job]? = some f) : f.Tidy s := by
  have hjob := cleanupInv_exec hexec job
  rw [hf] at hjob
  exact hjob.2

/-- So the causes are known after every run. -/
theorem attributed_exec {s : Setup} {start : Millis} {as : List Action} {w : World}
    (hexec : exec (step s) (World.new s start) as = some w) : Attributed s as w := by
  refine exec_invariant (I := Attributed s) ⟨?_, ?_⟩ ?_ hexec
  · intro job f hf
    cases hf
  · intro call error hmem
    cases hmem
  · intro as w a w' hbefore h hstep
    exact attributed_step (fun _ _ hf => tidy_exec hbefore hf) h hstep

end World

/-! ## The whole run -/

namespace Tells

variable {came came' : ShutdownRoute → Prop} {pc : Pc} {calls : List Effect}

/-- The calls tell by the failures among them. -/
theorem of_failures {calls' : List Effect} (h : Tells came pc calls)
    (heq : failures calls' = failures calls) : Tells came pc calls' := by
  refine ⟨fun route hcame => ?_, fun hshutdown => ?_, fun hpc => heq.trans (h.silent hpc)⟩
  · rw [Pc.verdict?_congr heq]
    exact h.reason route hcame
  · rw [Pc.verdict?_congr heq] at hshutdown
    exact h.shutdown hshutdown

/-- As long as the run goes on, it has come on no route. -/
theorem not_came (h : Tells came pc calls) (hrun : pc.leg ≠ .over) (route : ShutdownRoute) :
    ¬ came route := by
  intro hcame
  have hverdict := h.reason route hcame
  rw [Pc.verdict?_of_running hrun] at hverdict
  cases hverdict

/-- The `catch` of `start` records what the run has rejected with. -/
theorem caught {e : JobError} {job : Nat} (h : Tells came (.rejected e) calls) :
    Tells came .ended (calls ++ [.fail job e.failureReason e]) := by
  have hverdict : Pc.ended.verdict? (calls ++ [.fail job e.failureReason e]) =
      (Pc.rejected e).verdict? calls := by
    show (failures (calls ++ [.fail job e.failureReason e])).getLast? = some e.failureReason
    rw [failures_append, h.silent (by simp)]
    rfl
  refine ⟨fun route hcame => ?_, fun hshutdown => ?_, fun hpc => absurd rfl hpc⟩
  · rw [hverdict]
    exact h.reason route hcame
  · rw [hverdict] at hshutdown
    exact h.shutdown hshutdown

end Tells

/-- Once the run is over, only the `catch` of `start` is left to run, and on no route. -/
theorem Frame.resume_over {s : Setup} {view : RunView} {job : Nat} {f : Frame} {reply : Reply}
    {next : Frame × List Effect} (hover : f.pc.leg = .over)
    (h : f.resume s view job reply = some next) :
    f.shutdownRoute s view job f.pc reply = none ∧ ∃ e, f.pc = .rejected e ∧
      next = ({ f with pc := .ended }, [.fail job e.failureReason e]) := by
  cases resume_stretch h
  case recorded e hpc =>
    refine ⟨?_, e, hpc, rfl⟩
    rw [hpc]
    simp [shutdownRoute, reachesCheck]
  case works h =>
    -- of the states that are over, only a rejected one goes on
    have hended : f.pc = .ended := by
      cases hpc : f.pc with
      | ended => rfl
      | rejected e => simp [hpc, resumeLeased] at h
      | _ => simp [hpc, Pc.leg] at hover
    rw [hended] at h
    simp [resumeLeased] at h
  all_goals
    rw [‹f.pc = _›] at hover
    cases hover

namespace World

/-- The step is the one in which `abortActiveJobs` ends the job, on the route. -/
def EndsBy (s : Setup) (job : Nat) (route : ShutdownRoute) (w : World) (a : Action) : Prop :=
  ∃ reply f, a = .resume job reply ∧ w.frames[job]? = some f ∧
    f.shutdownRoute s w.view job f.pc reply = some route

/-- In the run, `abortActiveJobs` has ended the job on the route. -/
def EndedBy (s : Setup) (start : Millis) (as : List Action) (job : Nat) (route : ShutdownRoute) :
    Prop :=
  Happens (step s) (EndsBy s job route) (World.new s start) as

section Run

variable {s : Setup} {start : Millis} {as : List Action} {w w' : World} {a : Action} {job : Nat}

/-- Another's step ends no job. -/
theorem endedBy_concat_of_ne (hexec : exec (step s) (World.new s start) as = some w)
    (hother : a.resumed ≠ some (.job job)) (route : ShutdownRoute) :
    EndedBy s start (as ++ [a]) job route ↔ EndedBy s start as job route := by
  have hnot : ¬ EndsBy s job route w a := by
    rintro ⟨reply, f, rfl, _, _⟩
    exact hother rfl
  exact (happens_concat hexec a).trans (or_iff_left hnot)

/-- A job resumed at its frame is ended on the route of the frame. -/
theorem endedBy_concat_resume {reply : Reply} {f : Frame}
    (hexec : exec (step s) (World.new s start) as = some w) (hf : w.frames[job]? = some f)
    (route : ShutdownRoute) :
    EndedBy s start (as ++ [.resume job reply]) job route ↔
      EndedBy s start as job route ∨ f.shutdownRoute s w.view job f.pc reply = some route := by
  refine (happens_concat hexec _).trans (or_congr Iff.rfl ?_)
  constructor
  · rintro ⟨reply', g, ha, hg, hroute⟩
    cases ha
    obtain rfl := Option.some.inj (hg.symm.trans hf)
    exact hroute
  · exact fun hroute => ⟨reply, f, rfl, hf, hroute⟩

/-- Every job tells of the route on which it was ended; one not accepted yet was ended on none. -/
structure Told (s : Setup) (start : Millis) (as : List Action) (w : World) : Prop where
  tells : ∀ (job : Nat) (f : Frame), w.frames[job]? = some f →
    Tells (EndedBy s start as job) f.pc (w.callsOf job)
  unaccepted : ∀ job, w.frames[job]? = none → ∀ route, ¬ EndedBy s start as job route

/-- No waiter is rejected with a `ShutdownError`. -/
theorem settlement_ne_shutdown (h : Attributed s as w) :
    w.pool.settlement job ≠ some (.rejected .shutdown) := by
  intro hset
  obtain ⟨before, after, heq, _⟩ := List.lookup_eq_some_iff.mp hset
  have hmem : (job, .rejected .shutdown) ∈ w.pool.settled := by
    rw [heq]
    exact List.mem_append_right _ List.mem_cons_self
  rcases h.rejects job .shutdown hmem with ⟨_, hbusy⟩ | ⟨hshutting, _⟩
  · cases hbusy
  · cases hshutting

/-- A job that is resumed: while it runs, its route is that of the step; once the run is over, it
    was known before. -/
theorem Told.resumed (hexec : exec (step s) (World.new s start) as = some w)
    (h : Told s start as w) {f f' : Frame} {reply : Reply} {effects : List Effect}
    (hf : w.frames[job]? = some f) (hresume : f.resume s w.view job reply = some (f', effects)) :
    Tells (EndedBy s start (as ++ [.resume job reply]) job) f'.pc (w.callsOf job ++ effects) := by
  have htells := h.tells job f hf
  by_cases hover : f.pc.leg = .over
  · obtain ⟨hroute, e, hpc, hnext⟩ := Frame.resume_over hover hresume
    -- it had its reason already, and writes it now
    cases hnext
    rw [hpc] at htells
    refine htells.caught.congr fun route => ?_
    rw [endedBy_concat_resume hexec hf, hroute]
    simp
  · have hnone := htells.not_came hover
    -- a job that is not over has written no failure, so this one is its first
    have hsilent : failures (w.callsOf job) = [] := by
      refine htells.silent fun hended => hover ?_
      rw [hended]
      rfl
    have hnext := Frame.resume_tells hover (settlement_ne_shutdown (attributed_exec hexec)) hresume
    refine (hnext.of_failures ?_).congr fun route => ?_
    · rw [failures_append, hsilent]
      rfl
    · -- and no route had ended it before this step
      rw [endedBy_concat_resume hexec hf, or_iff_right (hnone route)]

/-- A job that has just been accepted has come on no route. -/
theorem Told.accepted (hexec : exec (step s) (World.new s start) as = some w)
    (h : Told s start as w) {f : Frame} (hfresh : f.Fresh s) (hother : a.resumed ≠ some (.job job))
    (hjob : w.frames[job]? = none) :
    Tells (EndedBy s start (as ++ [a]) job) f.pc (w.callsOf job) := by
  rw [callsOf_unaccepted (reachable_of_exec hexec) hjob]
  refine .of_none (fun route hcame => ?_) ?_ fun _ => rfl
  · exact h.unaccepted job hjob route ((endedBy_concat_of_ne hexec hother route).mp hcame)
  · cases hfresh with
    | running _ _ _ heq =>
      rw [heq]
      simp [Pc.verdict?]
    | rejected _ _ heq =>
      rw [heq]
      simp [Pc.verdict?, JobError.failureReason]

/-- A step that ends a job ends it on a route, and it tells of that. -/
theorem told_step (hexec : exec (step s) (World.new s start) as = some w)
    (h : Told s start as w) (hstep : step s w a = some w') : Told s start (as ++ [a]) w' := by
  refine ⟨?_, ?_⟩
  · intro job f' hf'
    -- a step that does not resume the job leaves what it tells as it was
    have hkept : ∀ f : Frame, w.frames[job]? = some f → f'.pc = f.pc →
        a.resumed ≠ some (.job job) → w'.callsOf job = w.callsOf job →
        Tells (EndedBy s start (as ++ [a]) job) f'.pc (w'.callsOf job) := by
      intro f hf hpc hother hcalls
      rw [hpc, hcalls]
      exact (h.tells job f hf).congr (endedBy_concat_of_ne hexec hother)
    cases step_job hstep job with
    | absent _ hafter _ _ => simp [hafter] at hf'
    | accepted f mode hstart hid hafter hfresh hcalls =>
      obtain rfl := Option.some.inj (hafter.symm.trans hf')
      rw [hcalls]
      exact h.accepted hexec hfresh (by simp [hstart, Action.resumed])
        (List.getElem?_eq_none (by omega))
    | resumed reply f g effects hresumed hbefore hafter hresume _ hcalls =>
      obtain rfl := Option.some.inj (hafter.symm.trans hf')
      rw [hresumed, hcalls]
      exact h.resumed hexec hbefore hresume
    | stays f hbefore hafter hother _ hcalls =>
      obtain rfl := Option.some.inj (hafter.symm.trans hf')
      exact hkept f hbefore rfl hother hcalls
    | deadline f hdeadline hbefore _ hafter hcalls =>
      obtain rfl := Option.some.inj (hafter.symm.trans hf')
      exact hkept f hbefore rfl (by simp [hdeadline, Action.resumed]) hcalls
    | aborted f habort hbefore _ hafter hcalls =>
      obtain rfl := Option.some.inj (hafter.symm.trans hf')
      exact hkept f hbefore rfl (by simp [habort, Action.resumed]) hcalls
  · intro job hjob route
    cases step_job hstep job with
    | absent hbefore _ hother _ =>
      rw [endedBy_concat_of_ne hexec hother]
      exact h.unaccepted job hbefore route
    | accepted _ _ _ _ hafter _ _ | resumed _ _ _ _ _ _ hafter _ _ _ | stays _ _ hafter _ _ _
    | deadline _ _ _ _ hafter _ | aborted _ _ _ _ hafter _ =>
      rw [hjob] at hafter
      cases hafter

/-- Every job tells of its route, after every run. -/
theorem told_exec (hexec : exec (step s) (World.new s start) as = some w) :
    Told s start as w := by
  refine exec_invariant (I := Told s start) ⟨?_, ?_⟩ (fun _ _ _ _ => told_step) hexec
  · intro job f hf
    cases hf
  · intro job _ route
    exact not_happens_nil _ _

/-! ## Who ended it -/

end Run

end World

namespace Frame

/-- Every check comes before the broadcast. -/
theorem reachesCheck_early {s : Setup} {view : RunView} {f : Frame} {pc : Pc} {reply : Reply}
    (h : f.reachesCheck s view pc reply = true) : pc.leg = .early := by
  revert h
  fun_cases Frame.reachesCheck s view f pc reply <;> intro h <;> first | rfl | cases h

/-- On each route, it is an abort or the rejection of a waiter that ends the job. -/
theorem shutdownRoute_cases {s : Setup} {view : RunView} {job : Nat} {f : Frame} {pc : Pc}
    {reply : Reply} {route : ShutdownRoute} (h : f.shutdownRoute s view job pc reply = some route) :
    view.pool.settlement job = some (.rejected shuttingDown) ∨
      pc.leg ≠ .over ∧ f.aborted.isSome = true ∧
        (pc.leg = .settled → f.aborted = some abortError) := by
  revert h
  fun_cases Frame.shutdownRoute s view job f pc reply <;> intro h <;> try cases h
  -- the routes in order: the queue, the signature wait, the respond wait, a check
  case case1 hset => exact .inl hset
  case case3 hwait => exact .inr ⟨by simp [Pc.leg], by rw [hwait.1]; rfl, fun _ => hwait.1⟩
  case case5 hwait => exact .inr ⟨by simp [Pc.leg], by rw [hwait.1]; rfl, fun _ => hwait.1⟩
  case case7 hcheck =>
    obtain ⟨hreach, haborted⟩ := Bool.and_eq_true_iff.mp hcheck
    have hearly := reachesCheck_early hreach
    refine .inr ⟨by simp [hearly], haborted, fun hsettled => ?_⟩
    rw [hearly] at hsettled
    cases hsettled

end Frame

namespace World

section Run

variable {s : Setup} {start : Millis} {as : List Action} {w w' : World} {a : Action} {job : Nat}

/-- A job is ended on a route only in a shutdown. -/
theorem attributed_ends (h : Attributed s as w) {f : Frame} {reply : Reply} {route : ShutdownRoute}
    (hf : w.frames[job]? = some f)
    (hroute : f.shutdownRoute s w.view job f.pc reply = some route) : .abortActiveJobs ∈ as := by
  rcases Frame.shutdownRoute_cases hroute with hset | ⟨hrun, haborted, hreason⟩
  · obtain ⟨before, after, heq, _⟩ := List.lookup_eq_some_iff.mp hset
    have hmem : (job, .rejected shuttingDown) ∈ w.pool.settled := by
      rw [show w.pool.settled = _ from heq]
      exact List.mem_append_right _ List.mem_cons_self
    rcases h.rejects job shuttingDown hmem with ⟨_, hbusy⟩ | ⟨_, habort⟩
    · cases hbusy
    · exact habort
  · rcases h.aborted job f hf hrun with hnone | habort | ⟨hsettled, hdeadline⟩
    · rw [hnone] at haborted
      cases haborted
    · exact habort
    · -- the respond deadline aborts with a reason of its own
      rw [hreason hsettled, Option.some.injEq] at hdeadline
      have hname := congrArg JsError.name hdeadline
      simp [abortError, respondDeadlineError] at hname

/-- A job ends on one of the routes only after `abortActiveJobs`. -/
theorem ended_after_abort (hexec : exec (step s) (World.new s start) as = some w)
    {route : ShutdownRoute} (h : EndedBy s start as job route) : .abortActiveJobs ∈ as := by
  obtain ⟨before, a, after, w₁, rfl, hbefore, reply, f, _, hf, hroute⟩ := h
  exact List.mem_append_left _ (attributed_ends (attributed_exec hbefore) hf hroute)

/-! ## What is recorded -/

/-- The run of the job has ended, and so has the `catch` of `start`. -/
def Ended (w : World) (job : Nat) : Prop := ∃ f : Frame, w.frames[job]? = some f ∧ f.pc = .ended

/-- The job was failed with the reason, and so says its record for as long as it is kept. -/
structure FailedWith (w : World) (job : Nat) (reason : FailureReason) : Prop where
  failed : (failures (w.callsOf job)).getLast? = some reason
  record : ∀ r ∈ w.jobs.get? job, r.state = .failed ∧ r.failureReason = some reason

/-- The record of a failed job is failed. -/
theorem failedWith (hexec : exec (step s) (World.new s start) as = some w) {reason : FailureReason}
    (h : (failures (w.callsOf job)).getLast? = some reason) : w.FailedWith job reason := by
  have hreach := reachable_of_exec hexec
  refine ⟨h, fun r hr => ?_⟩
  obtain ⟨hmem, rfl⟩ := JobStore.mem_of_get? hr
  have hrecorded : r.failureReason = some reason :=
    (failuresRecorded_reachable hreach r hmem).trans h
  refine ⟨?_, hrecorded⟩
  obtain ⟨f, _, htracks⟩ := (jobsInv_reachable hreach).tracks r hmem
  exact htracks.failure.mp (by rw [hrecorded]; rfl)

/-- A job that `abortActiveJobs` has ended is failed with the reason of its route. -/
theorem failedWith_route (hexec : exec (step s) (World.new s start) as = some w)
    (hended : w.Ended job) {route : ShutdownRoute} (h : EndedBy s start as job route) :
    w.FailedWith job route.reason := by
  obtain ⟨f, hf, hpc⟩ := hended
  have hverdict := ((told_exec hexec).tells job f hf).reason route h
  rw [hpc] at hverdict
  exact failedWith hexec hverdict

/-- What a run makes of the shutdown of a job: if `abortActiveJobs` ended it, it ends failed with
    `shutdown`; and a record says so of no other job. -/
structure ShutdownRecorded (s : Setup) (start : Millis) (as : List Action) (w : World)
    (job : Nat) : Prop where
  recorded : w.Ended job → ∀ route, EndedBy s start as job route → w.FailedWith job .shutdown
  only : ∀ r ∈ w.jobs.get? job, r.failureReason = some .shutdown →
    ∃ route, EndedBy s start as job route
  after : ∀ route, EndedBy s start as job route → .abortActiveJobs ∈ as

/-- In every run, a job's shutdown is recorded as one exactly when it has not ended in one of its
    three waits: for an address, for the signature and for the respond. -/
theorem shutdown_recorded_iff (hexec : exec (step s) (World.new s start) as = some w) (job : Nat) :
    ShutdownRecorded s start as w job ↔
      (w.Ended job → ∀ route, EndedBy s start as job route → route = .phaseCheck) := by
  constructor
  · intro h hended route hroute
    have hshutdown := (h.recorded hended route hroute).failed
    have hreason := (failedWith_route hexec hended hroute).failed
    rw [hshutdown, Option.some.injEq] at hreason
    exact ShutdownRoute.reason_eq_shutdown.mp hreason.symm
  · intro h
    refine ⟨fun hended route hroute => ?_, fun r hr hreason => ?_,
      fun route hroute => ended_after_abort hexec hroute⟩
    · have hfailed := failedWith_route hexec hended hroute
      rwa [h hended route hroute] at hfailed
    · -- a record with a failure is that of an ended job, and tells of its route
      obtain ⟨hmem, rfl⟩ := JobStore.mem_of_get? hr
      have hreach := reachable_of_exec hexec
      have hlast := (failuresRecorded_reachable hreach r hmem).symm.trans hreason
      obtain ⟨f, hf, _⟩ := (jobsInv_reachable hreach).tracks r hmem
      have htells := (told_exec hexec).tells r.id f hf
      have hended : f.pc = .ended := by
        by_contra hopen
        rw [htells.silent hopen] at hlast
        cases hlast
      rw [hended] at htells
      exact ⟨.phaseCheck, htells.shutdown hlast⟩

end Run

/-- The state a run of the sample deployment ends in. -/
def endOf (as : List Action) : World :=
  (exec (step sampleSetup) (World.new sampleSetup 0) as).getD (World.new sampleSetup 0)

theorem exec_endOf {as : List Action}
    (h : (exec (step sampleSetup) (World.new sampleSetup 0) as).isSome = true) :
    exec (step sampleSetup) (World.new sampleSetup 0) as = some (endOf as) :=
  exec_getD h _

/-- The shutdown finds the job reading its balance, and the check behind that stops it. -/
def checkedRun : List Action :=
  respondedRun.take 7 ++ [.abortActiveJobs, .resume 0 (.balance 10000000000000000),
    .resume 0 .resume]

/-- A job stopped between two phases is recorded as shut down. -/
theorem checkedRun_recorded : ShutdownRecorded sampleSetup 0 checkedRun (endOf checkedRun) 0 ∧
    (endOf checkedRun).FailedWith 0 .shutdown := by
  have hexec : exec (step sampleSetup) (World.new sampleSetup 0) checkedRun =
      some (endOf checkedRun) := exec_endOf (by decide +kernel)
  have hfailed : (failures ((endOf checkedRun).callsOf 0)).getLast? = some .shutdown := by
    decide +kernel
  refine ⟨(shutdown_recorded_iff hexec 0).mpr ?_, failedWith hexec hfailed⟩
  intro hended route hroute
  have hreason := (failedWith_route hexec hended hroute).failed
  rw [hfailed, Option.some.injEq] at hreason
  exact ShutdownRoute.reason_eq_shutdown.mp hreason.symm

/-! ## The three waits -/

/-- The shutdown finds the job waiting for its signature. -/
def signatureWaitRun : List Action :=
  respondedRun.take 14 ++ [.abortActiveJobs, .resume 0 (.throw abortError)]

/-- The shutdown finds the job waiting for the respond. -/
def respondWaitRun : List Action :=
  respondedRun.take 20 ++ [.abortActiveJobs, .resume 0 (.throw abortError)]

/-- The shutdown finds the second job queued for the address of the first. -/
def queuedWaiterRun : List Action :=
  contendedRun ++ [.abortActiveJobs, .resume 1 .resume, .resume 1 .resume]

/-- A run in which a job ends in one of its waits does not record the shutdown. -/
private theorem misrecorded (before : List Action) (job : Nat) (reply : Reply)
    (after : List Action) (route : ShutdownRoute) (hroute : route ≠ .phaseCheck)
    (hends : ((exec (step sampleSetup) (World.new sampleSetup 0) before).bind fun w =>
      w.frames[job]?.bind fun f => f.shutdownRoute sampleSetup w.view job f.pc reply) = some route)
    (hexec : (exec (step sampleSetup) (World.new sampleSetup 0)
      (before ++ .resume job reply :: after)).isSome = true)
    (hended : (endOf (before ++ .resume job reply :: after)).frames[job]?.map Frame.pc =
      some .ended) :
    ¬ ShutdownRecorded sampleSetup 0 (before ++ .resume job reply :: after)
      (endOf (before ++ .resume job reply :: after)) job := by
  intro h
  obtain ⟨w, hbefore, hw⟩ := Option.bind_eq_some_iff.mp hends
  obtain ⟨f, hf, hfroute⟩ := Option.bind_eq_some_iff.mp hw
  -- the route is the one taken in the step that the run is cut at
  have hcame : EndedBy sampleSetup 0 (before ++ .resume job reply :: after) job route :=
    ⟨before, _, after, w, rfl, hbefore, reply, f, rfl, hf, hfroute⟩
  obtain ⟨g, hg, hpc⟩ := Option.map_eq_some_iff.mp hended
  have hfailed := (failedWith_route (exec_endOf hexec) ⟨g, hg, hpc⟩ hcame).failed
  have hshutdown := (h.recorded ⟨g, hg, hpc⟩ route hcame).failed
  -- its reason is not the shutdown, which is the reason of the phase check only
  rw [hfailed, Option.some.injEq] at hshutdown
  exact hroute (ShutdownRoute.reason_eq_shutdown.mp hshutdown)

/-- In each of the three waits, a shutdown is recorded as something else. -/
theorem shutdown_misrecorded :
    ¬ ShutdownRecorded sampleSetup 0 signatureWaitRun (endOf signatureWaitRun) 0 ∧
    ¬ ShutdownRecorded sampleSetup 0 respondWaitRun (endOf respondWaitRun) 0 ∧
    ¬ ShutdownRecorded sampleSetup 0 queuedWaiterRun (endOf queuedWaiterRun) 1 := by
  refine ⟨?_, ?_, ?_⟩
  · exact misrecorded (respondedRun.take 14 ++ [.abortActiveJobs]) 0 (.throw abortError) []
      .signatureWait (by simp) (by decide +kernel) (by decide +kernel) (by decide +kernel)
  · exact misrecorded (respondedRun.take 20 ++ [.abortActiveJobs]) 0 (.throw abortError) []
      .respondWait (by simp) (by decide +kernel) (by decide +kernel) (by decide +kernel)
  · exact misrecorded (contendedRun ++ [.abortActiveJobs]) 1 .resume [.resume 1 .resume]
      .queuedWaiter (by simp) (by decide +kernel) (by decide +kernel) (by decide +kernel)

end World

end ContractPinger
