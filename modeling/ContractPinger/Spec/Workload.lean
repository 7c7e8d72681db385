import ContractPinger.ForStd.Potential
import ContractPinger.Model.Server
import ContractPinger.Spec.Addresses
import ContractPinger.Spec.JobSteps

/-!
# The work a service has yet to do

Every loop of a job goes over the paths of the pool, and every wait ends. So what a job, a
request or a derivation has yet to do can be counted in advance: the `await`s it may still
come back from and the timers it may still set. Nothing but an arrival adds to it, and
whatever goes on by itself takes from it.

## Key results

- `Frame.resume_pays`: a resumption is paid for by what its job has yet to do
- `step_workload`: every step pays for what it does, and arrivals bring the rest
- `work_bounded`: the work of a whole run is bounded by its arrivals
-/

namespace ContractPinger

open Machine

/-! ## A job -/

/-- The most `await`s a job over `paths` paths comes back from, this one included. -/
def Pc.awaits (paths : Nat) : Pc → Nat
  | .ensuringAddresses _ => 2 * paths + 14
  | .reconciling rest => rest.length + paths + 13
  | .refreshingUnderfunded rest => rest.length + 12
  | .leasing => 11
  | .readingBalance => 10
  | .readingNonce _ => 9
  | .estimatingGas _ _ _ => 8
  | .buildingInstruction _ => 7
  | .sendingSolana _ => 6
  | .awaitingSignature _ => 5
  | .attachingSignature _ _ => 4
  | .broadcasting _ _ => 3
  | .confirming _ _ => 2
  | .responding => 1
  | .rejected _ => 1
  | .ended => 0

/-- The timers a job may still set: the one of its lease wait and the one of its respond. -/
def Pc.timersAhead : Pc → Nat
  | .ensuringAddresses _ => 2
  | .reconciling _ => 2
  | .refreshingUnderfunded _ => 2
  | .responding => 0
  | .rejected _ => 0
  | .ended => 0
  | _ => 1

namespace Frame

/-- The timers a job may still set, with the one of its respond if it is set. -/
def timers (f : Frame) : Nat := f.pc.timersAhead + f.respondDeadline.toNat

/-- What a job has yet to do: the `await`s it comes back from and the timers that may fire. -/
def workload (paths : Nat) (f : Frame) : Nat := f.pc.awaits paths + f.timers

/-- The calls that may set the timer of a waiter. -/
def asks (effects : List Effect) : Nat :=
  effects.countP fun effect => match effect with
    | .acquireWithin _ => true
    | _ => false

/-- Releasing a lease asks for no worker. -/
theorem asks_releaseLease (f : Frame) : asks f.releaseLease.2 = 0 := by
  unfold releaseLease
  split <;> rfl

/-- Nor does the `finally` block. -/
theorem asks_finish (f : Frame) (pc : Pc) (effects : List Effect) :
    asks (f.finish pc effects).2 = asks effects := by
  show asks (effects ++ f.releaseLease.2) = _
  rw [asks, List.countP_append]
  exact Nat.add_eq_left.mpr (asks_releaseLease f)

/-- The step is paid for by the `await`s that are left, and the timers its calls may set by
    those that are. -/
structure Pays (paths : Nat) (f : Frame) (next : Frame × List Effect) : Prop where
  awaits : next.1.pc.awaits paths < f.pc.awaits paths
  timers : next.1.timers + asks next.2 ≤ f.timers

section Ways

variable {paths : Nat} {f g : Frame} {pc : Pc} {effects : List Effect}

/-- Going on to an `await` with less ahead of it. -/
theorem pays_await (hg : g.respondDeadline.toNat ≤ f.respondDeadline.toNat)
    (hless : pc.awaits paths < f.pc.awaits paths ∧
      pc.timersAhead + asks effects ≤ f.pc.timersAhead) : Pays paths f (g.await pc effects) := by
  refine ⟨hless.1, ?_⟩
  show pc.timersAhead + g.respondDeadline.toNat + asks effects ≤ _
  unfold Frame.timers
  omega

/-- Leaving. -/
theorem pays_finish (hg : g.respondDeadline.toNat ≤ f.respondDeadline.toNat)
    (hless : pc.awaits paths < f.pc.awaits paths ∧
      pc.timersAhead + asks effects ≤ f.pc.timersAhead) : Pays paths f (g.finish pc effects) := by
  have hdeadline : (g.finish pc effects).1.respondDeadline = g.respondDeadline :=
    releaseLease_respondDeadline g
  refine ⟨hless.1, ?_⟩
  rw [asks_finish, Frame.timers, hdeadline]
  show pc.timersAhead + g.respondDeadline.toNat + asks effects ≤ _
  unfold Frame.timers
  omega

/-- Past a `throwIfAborted`, both ways. -/
theorem pays_proceed {before : List Effect}
    (hthrows : 1 < f.pc.awaits paths ∧ asks before ≤ f.pc.timersAhead)
    (hless : pc.awaits paths < f.pc.awaits paths ∧
      pc.timersAhead + asks (before ++ effects) ≤ f.pc.timersAhead) :
    Pays paths f (f.proceed pc before effects) := by
  unfold proceed
  split
  · exact pays_finish (Nat.le_refl _) ⟨hthrows.1, by simpa [Pc.timersAhead] using hthrows.2⟩
  · exact pays_await (Nat.le_refl _) hless

/-- A build that failed leaves or throws. -/
theorem pays_buildFailed {job balance : Nat} {path : String} {e : JsError}
    (hearly : 1 < f.pc.awaits paths) :
    Pays paths f (resumeLeased.buildFailed job path f balance e) := by
  unfold resumeLeased.buildFailed
  split
  · exact pays_finish (Nat.le_refl _) ⟨Nat.lt_of_succ_lt hearly, Nat.zero_le _⟩
  · exact pays_finish (Nat.le_refl _) ⟨hearly, Nat.zero_le _⟩

end Ways

/-- From `leasing` on, each resumption is paid for. -/
theorem resumeLeased_pays {s : Setup} {view : RunView} {job : Nat} {path : String} {f : Frame}
    {reply : Reply} {next : Frame × List Effect} (paths : Nat)
    (h : f.resumeLeased s view job path f.pc reply = some next) : Pays paths f next := by
  generalize hpc : f.pc = pc at h
  cases resumeLeased_stretch h
  case funded =>
    exact pays_proceed (by simp [hpc, Pc.awaits, asks])
      (by simp [hpc, Pc.awaits, Pc.timersAhead, asks])
  case built =>
    exact pays_proceed (by simp [hpc, Pc.awaits, asks])
      (by simp [hpc, Pc.awaits, Pc.timersAhead, asks])
  case nonceFailed => exact pays_buildFailed (by simp [hpc, Pc.awaits])
  case estimateFailed => exact pays_buildFailed (by simp [hpc, Pc.awaits])
  -- the timer of the respond is set, in place of the one that was ahead
  case confirmed released effects hrel =>
    have hasks : asks effects = 0 := by rw [← asks_releaseLease f, hrel]
    refine ⟨by simp [hpc, Pc.awaits], ?_⟩
    show 0 + 1 + asks (.update job _ :: effects) ≤ _
    rw [asks, List.countP_cons_of_neg (by simp), ← asks, hasks, timers, hpc]
    exact Nat.le_add_right 1 _
  -- and cleared
  case unexpected =>
    exact pays_finish (Nat.zero_le _) (by simp [hpc, Pc.awaits, Pc.timersAhead, asks])
  case responded =>
    exact pays_finish (Nat.zero_le _) (by simp [hpc, Pc.awaits, Pc.timersAhead, asks])
  case unresponded =>
    exact pays_finish (Nat.zero_le _) (by simp [hpc, Pc.awaits, Pc.timersAhead, asks])
  all_goals
    first
      | exact pays_await (Nat.le_refl _) (by simp [hpc, Pc.awaits, Pc.timersAhead, asks])
      | exact pays_finish (Nat.le_refl _) (by simp [hpc, Pc.awaits, Pc.timersAhead, asks])

/-- Each resumption is paid for: the loops go over the paths of the pool. -/
theorem resume_pays {s : Setup} {view : RunView} {job : Nat} {f : Frame} {reply : Reply}
    {next : Frame × List Effect} (h : f.resume s view job reply = some next) :
    Pays view.pool.paths.length f next := by
  have hquarantined : view.pool.quarantined.length ≤ view.pool.paths.length := by
    rw [WorkerPool.paths, List.length_map]
    exact List.length_filter_le _ _
  have hskip : ∀ (pool : WorkerPool) rest, (pool.skipFunded rest).length ≤ rest.length :=
    fun pool rest => (List.dropWhile_sublist _).length_le
  cases resume_stretch h
  -- `ensureAddresses`
  case underived hpc _ _ =>
    exact pays_finish (Nat.le_refl _) (by simp [hpc, Pc.awaits, Pc.timersAhead, asks])
  case derived hpc _ =>
    refine pays_await (Nat.le_refl _) ⟨?_, by simp [hpc, Pc.timersAhead, asks]⟩
    simp only [hpc, Pc.awaits, List.length_map]
    omega
  -- `reconcileQuarantined`
  case counted hpc =>
    exact pays_await (Nat.le_refl _) (by simp [hpc, Pc.awaits, Pc.timersAhead, asks])
  case uncounted hpc =>
    exact pays_finish (Nat.le_refl _) (by simp [hpc, Pc.awaits, Pc.timersAhead, asks])
  case reconciled hpc =>
    have hrest := hskip view.pool view.pool.paths
    refine pays_await (Nat.le_refl _) ⟨?_, by simp [hpc, Pc.timersAhead, asks]⟩
    simp only [hpc, Pc.awaits, List.length_nil]
    omega
  -- `refreshUnderfunded`
  case refreshed path rest balance hpc =>
    have hrest := hskip (view.pool.setBalance path balance s.env.bidirectional.minBalanceWei) rest
    refine pays_await (Nat.le_refl _) ⟨?_, by simp [hpc, Pc.timersAhead, asks]⟩
    simp only [hpc, Pc.awaits, List.length_cons]
    omega
  case unrefreshed hpc =>
    exact pays_finish (Nat.le_refl _) (by simp [hpc, Pc.awaits, Pc.timersAhead, asks])
  -- the timer of the lease wait is set, in place of the one that was ahead
  case asked hpc =>
    exact pays_proceed (by simp [hpc, Pc.awaits, asks])
      (by simp [hpc, Pc.awaits, Pc.timersAhead, asks])
  -- `acquireWithin`
  case refused hpc error _ =>
    exact pays_finish (Nat.le_refl _) (by simp [hpc, Pc.awaits, Pc.timersAhead, asks])
  case leased hpc path _ =>
    exact pays_await (Nat.le_refl _) (by simp [hpc, Pc.awaits, Pc.timersAhead, asks])
  -- the `catch` of `start`
  case recorded hpc =>
    show Pays _ f (f.await .ended _)
    exact pays_await (Nat.le_refl _) (by simp [hpc, Pc.awaits, Pc.timersAhead, asks])
  case works h => exact resumeLeased_pays _ h

/-- What is paid for takes one at least from the workload of the job. -/
theorem Pays.workload {paths : Nat} {f : Frame} {next : Frame × List Effect}
    (h : Pays paths f next) : next.1.workload paths + asks next.2 + 1 ≤ f.workload paths := by
  have hawaits := h.awaits
  have htimers := h.timers
  unfold Frame.workload
  omega

end Frame

/-! ## A request and a derivation -/

/-- The most `await`s a request over `paths` paths comes back from. -/
def RequestPc.awaits (paths : Nat) : RequestPc → Nat
  | .ensuringAddresses _ => 2 * paths + 2
  | .refreshing rest => rest.length + paths + 1
  | .reconciling rest => rest.length + 1
  | .answered _ => 0

/-- The most `await`s a derivation comes back from. -/
def Derivation.awaits : Derivation → Nat
  | .deriving _ rest _ => rest.length + 1
  | .failing _ => 1
  | .fulfilled => 0
  | .rejected _ => 0

namespace World

/-- A refresh reads the balances that are left, then the counts of all. -/
theorem refreshFrom_awaits (pool : WorkerPool) (rest : List String) :
    (refreshFrom pool rest).awaits pool.paths.length ≤ rest.length + pool.paths.length + 1 := by
  -- the quarantined addresses and the ones skipped are among the paths
  have hquarantined : pool.quarantined.length ≤ pool.paths.length := by
    rw [WorkerPool.paths, List.length_map]
    exact List.length_filter_le _ _
  have hskip : (skipUnderived pool rest).length ≤ rest.length :=
    (List.dropWhile_sublist _).length_le
  unfold refreshFrom
  split
  · simp only [RequestPc.awaits, List.length_map]
    omega
  · rename_i heq
    rw [heq] at hskip
    simp only [RequestPc.awaits]
    omega

/-- Each resumption of a request takes from what it has to do, and sets no timer. -/
theorem resumeRequest_awaits {s : Setup} {w : World} {pc pc' : RequestPc} {reply : Reply}
    {effects : List Effect} (h : w.resumeRequest s pc reply = some (pc', effects)) :
    pc'.awaits w.pool.paths.length + Frame.asks effects + 1 ≤ pc.awaits w.pool.paths.length := by
  cases resumeRequest_stretch h
  case underived => simp [RequestPc.awaits, Frame.asks]
  case derived =>
    -- the balances still to be read are at most one for each path
    have hfrom := refreshFrom_awaits w.pool w.pool.paths
    have hnone : Frame.asks [] = 0 := rfl
    simp only [RequestPc.awaits.eq_1, hnone]
    omega
  case refreshed path rest balance =>
    have hfrom := refreshFrom_awaits
      (w.pool.setBalance path balance s.env.bidirectional.minBalanceWei) rest
    -- storing a balance adds no path
    have hpaths :
        (w.pool.setBalance path balance s.env.bidirectional.minBalanceWei).paths = w.pool.paths :=
      WorkerPool.onPool_paths (.setBalance path balance s.env.bidirectional.minBalanceWei) 0 w.pool
    rw [hpaths] at hfrom
    have hnone : Frame.asks [.setBalance path balance s.env.bidirectional.minBalanceWei] = 0 := rfl
    simp only [RequestPc.awaits.eq_2, List.length_cons, hnone]
    omega
  case unrefreshed => simp [RequestPc.awaits, Frame.asks]
  case counted => simp [RequestPc.awaits, Frame.asks]
  case uncounted => simp [RequestPc.awaits, Frame.asks]
  case answered => simp [RequestPc.awaits, Frame.asks]

end World

/-! ## The timers of the queue -/

namespace WorkerPool

/-- A call sets at most one timer, and only `acquireWithin` sets one. -/
theorem onPool_timers (effect : Effect) (now : Millis) (pool : WorkerPool) :
    (effect.onPool now pool).timers.length ≤ pool.timers.length + Frame.asks [effect] := by
  cases effect with
  | acquireWithin job =>
    show (pool.acquireWithin job now).timers.length ≤ pool.timers.length + 1
    unfold WorkerPool.acquireWithin
    split
    · rename_i path leased hok
      obtain ⟨_, _, _, rfl⟩ := acquire_ok hok
      -- granted at once, or refused: no timer is set
      exact Nat.le_succ _
    · exact Nat.le_succ _
    · exact Nat.le_of_eq (List.length_append ..)
  | release path =>
    -- handing off stops timers and sets none
    refine handOff_invariant (fun pool' => pool'.timers.length ≤ pool.timers.length) _ now
      (Nat.le_refl _) ?_
    intro pool' leased call rest path h _ hok
    obtain ⟨_, _, _, rfl⟩ := acquire_ok hok
    exact Nat.le_trans (List.length_erase_le ..) h
  | _ => exact Nat.le_refl _

/-- A stretch of code sets at most as many timers as it asks for addresses. -/
theorem onPools_timers (effects : List Effect) (now : Millis) (pool : WorkerPool) :
    (effects.foldl (fun pool effect => effect.onPool now pool) pool).timers.length ≤
      pool.timers.length + Frame.asks effects := by
  induction effects generalizing pool with
  | nil => exact Nat.le_refl _
  | cons effect rest ih =>
    have hfirst := onPool_timers effect now pool
    have hrest := ih (effect.onPool now pool)
    have hcons : Frame.asks (effect :: rest) = Frame.asks [effect] + Frame.asks rest := by
      rw [← List.singleton_append, Frame.asks, List.countP_append, ← Frame.asks, ← Frame.asks]
    rw [List.foldl_cons, hcons]
    omega

end WorkerPool

/-! ## The service -/

/-- The most work that comes with an arrival. -/
def Action.brings (s : Setup) : Action → Nat
  | .start _ => 3 * s.paths + 17
  | .getWorkers => 3 * s.paths + 3
  | _ => 0

/-- The work an action is: one `await` that goes on, or one timer that fires. -/
def Action.work (a : Action) : Nat := if a.resumes then 1 else 0

namespace World

/-- What the service has yet to do, with the timers that are set. -/
def workload (s : Setup) (w : World) : Nat :=
  (w.frames.map (Frame.workload s.paths)).sum + (w.requests.map (RequestPc.awaits s.paths)).sum +
    (w.derivations.map Derivation.awaits).sum + w.pool.timers.length

variable {s : Setup} {w w' : World}

/-- The pool has as many workers as the service has paths. -/
theorem paths_length (h : AddressInv s w) : w.pool.paths.length = s.paths := by
  rw [h.paths, buildPaths, List.length_map, List.length_range]

/-- A stretch of code changes the timers only. -/
theorem performAll_workload (s : Setup) (w : World) (who : Proc) (effects : List Effect) :
    workload s (w.performAll who effects) ≤ workload s w + Frame.asks effects := by
  have htimers := WorkerPool.onPools_timers effects w.now w.pool
  unfold workload
  rw [performAll_frames, performAll_requests, performAll_derivations, performAll_pool]
  omega

/-- Joining the memoized derivation, or starting one over the paths. -/
theorem ensureAddresses_workload (h : AddressInv s w) :
    workload s (w.ensureAddresses s).1 ≤ workload s w + s.paths + 1 := by
  rcases ensureAddresses_cases w s with hsame | ⟨_, d, hd, hjoined⟩
  · rw [hsame]
    omega
  · have hawaits : d.awaits ≤ s.paths + 1 := by
      rcases hd with ⟨e, rfl⟩ | ⟨solana, _, rfl⟩
      · exact Nat.le_add_left 1 _
      · show w.pool.paths.length + 1 ≤ _
        rw [paths_length h]
    rw [hjoined]
    unfold workload
    simp only [List.map_append, List.sum_append, List.map_cons, List.map_nil, List.sum_singleton]
    omega

/-- Putting a frame in the place of another. -/
theorem setFrame_workload {job : Nat} {f : Frame} (hf : w.frames[job]? = some f) (f' : Frame) :
    workload s { w with frames := w.frames.set job f' } + f.workload s.paths =
      workload s w + f'.workload s.paths := by
  have hset := sum_map_set (Frame.workload s.paths) f' hf
  simp only [workload]
  omega

/-- Likewise for a request. -/
theorem setRequest_workload {request : Nat} {pc : RequestPc} (hpc : w.requests[request]? = some pc)
    (pc' : RequestPc) : workload s { w with requests := w.requests.set request pc' } +
      pc.awaits s.paths = workload s w + pc'.awaits s.paths := by
  have hset := sum_map_set (RequestPc.awaits s.paths) pc' hpc
  simp only [workload]
  omega

/-- And for a derivation. -/
theorem setDerivation_workload {index : Nat} {d : Derivation}
    (hd : w.derivations[index]? = some d) (d' : Derivation) :
    workload s { w with derivations := w.derivations.set index d' } + d.awaits =
      workload s w + d'.awaits := by
  have hset := sum_map_set Derivation.awaits d' hd
  simp only [workload]
  omega

/-- One frame more. -/
theorem addFrame_workload (w : World) (f : Frame) :
    workload s { w with frames := w.frames ++ [f] } = workload s w + f.workload s.paths := by
  simp only [workload, List.map_append, List.sum_append, List.map_cons, List.map_nil,
    List.sum_singleton]
  omega

/-- Accepting a job brings its work, and maybe a derivation. -/
theorem start_workload (h : AddressInv s w) (mode : TxMode) :
    workload s (w.start s mode) ≤ workload s w + 3 * s.paths + 17 := by
  -- the record and the event do not count
  let recorded : World :=
    { w with
      jobs := w.jobs.create w.frames.length s.environment mode w.now
      history := w.history ++ [.started w.frames.length w.now] }
  have hsame : workload s recorded = workload s w := rfl
  unfold start
  dsimp only
  split
  · refine Nat.le_trans (Nat.le_of_eq (addFrame_workload recorded _)) ?_
    show workload s recorded + (1 + 0 + 0) ≤ _
    omega
  · have hrecorded : AddressInv s recorded := h.quiet rfl rfl rfl h.past h.pastRequests
    have hjoin := ensureAddresses_workload hrecorded
    refine Nat.le_trans (Nat.le_of_eq (addFrame_workload (recorded.ensureAddresses s).1 _)) ?_
    show _ + (2 * s.paths + 14 + 2 + 0) ≤ _
    omega

/-- Each resumption of a derivation takes from what it has to do. -/
theorem resumeDerivation_workload {index : Nat} {d : Derivation} {reply : Reply}
    (hd : w.derivations[index]? = some d) (h : w.resumeDerivation s index d reply = some w') :
    workload s w' + 1 ≤ workload s w := by
  have hset := fun d' => setDerivation_workload (s := s) hd d'
  cases resumeDerivation_stretch h
  case derived solana path rest derived =>
    have hdone := hset (.deriving solana rest (derived ++ [deriveWorker s.libs solana path]))
    simp only [Derivation.awaits, List.length_cons] at hdone
    omega
  case threw solana path rest derived e =>
    have hfailed := hset (.failing e)
    simp only [Derivation.awaits, List.length_cons] at hfailed
    omega
  case applied solana derived =>
    have hfulfilled := hset .fulfilled
    simp only [Derivation.awaits, List.length_nil] at hfulfilled
    -- applying the addresses sets no timer
    have htimers : (applyAddresses w.pool derived).timers = w.pool.timers :=
      applyAddresses_invariant (fun pool => pool.timers = w.pool.timers) w.pool derived rfl
        fun _ _ _ heq => heq
    have happlied : workload s { w with
        pool := applyAddresses w.pool derived
        derivations := w.derivations.set index .fulfilled } =
          workload s { w with derivations := w.derivations.set index .fulfilled } := by
      simp only [workload, htimers]
    omega
  case caught e =>
    have hrejected := hset (.rejected e)
    simp only [Derivation.awaits] at hrejected
    have hdropped : workload s { w with
        addressesReady := none
        derivations := w.derivations.set index (.rejected e) } =
          workload s { w with derivations := w.derivations.set index (.rejected e) } := rfl
    omega

/-- Every step pays for what it does out of what there was to do, and arrivals bring the rest. -/
theorem step_workload (h : AddressInv s w) {a : Action} (hstep : step s w a = some w') :
    workload s w' + a.work ≤ workload s w + a.brings s := by
  cases a with
  | start mode =>
    cases hstep
    exact start_workload h mode
  | getWorkers =>
    cases hstep
    have hjoin := ensureAddresses_workload h
    show workload s (w.getWorkers s) + 0 ≤ workload s w + (3 * s.paths + 3)
    -- a request brings its own reads, and its derivation the rest
    have hadd : workload s (w.getWorkers s) = workload s (w.ensureAddresses s).1 +
        (2 * s.paths + 2) := by
      unfold workload getWorkers
      simp only [List.map_append, List.sum_append, List.map_cons, List.map_nil,
        List.sum_singleton, RequestPc.awaits]
      omega
    omega
  | resume job reply =>
    obtain ⟨f, f', effects, hf, hresume, rfl⟩ := step_resume hstep
    have hpays : f'.workload w.pool.paths.length + Frame.asks effects + 1 ≤
        f.workload w.pool.paths.length := (Frame.resume_pays hresume).workload
    rw [paths_length h] at hpays
    -- the frame pays for the step and for the timer it may set
    have hset := setFrame_workload (s := s) hf f'
    have hcalls := performAll_workload s { w with frames := w.frames.set job f' } (.job job) effects
    show _ + 1 ≤ workload s w + 0
    omega
  | resumeRequest request reply =>
    obtain ⟨pc, pc', effects, hpc, hresume, rfl⟩ := step_resumeRequest hstep
    have hpays := resumeRequest_awaits hresume
    rw [paths_length h] at hpays
    have hset := setRequest_workload (s := s) hpc pc'
    have hcalls := performAll_workload s { w with requests := w.requests.set request pc' }
      (.request request) effects
    show _ + 1 ≤ workload s w + 0
    omega
  | resumeDerivation index reply =>
    simp only [step, Option.bind_eq_some_iff] at hstep
    obtain ⟨d, hd, hstep⟩ := hstep
    exact resumeDerivation_workload hd hstep
  | expire job =>
    obtain ⟨hmem, rfl⟩ := step_expire hstep
    have hpos := List.length_pos_of_mem hmem
    -- the timer that fires is the work that is done
    have htimers : (w.pool.expire job).timers.length = w.pool.timers.length - 1 :=
      List.length_erase_of_mem hmem
    show (_ + _ + _ + (w.pool.expire job).timers.length) + 1 ≤ workload s w + 0
    unfold workload
    rw [setPool_frames, setPool_requests, setPool_derivations]
    omega
  | respondDeadline job =>
    obtain ⟨f, hf, hdeadline, rfl⟩ := step_respondDeadline hstep
    have hset := setFrame_workload (s := s) hf
      { f.abort (respondDeadlineError s) with respondDeadline := false }
    -- the respond's deadline was one of the timers counted
    have hfired : Frame.workload s.paths
        { f.abort (respondDeadlineError s) with respondDeadline := false } + 1 =
          f.workload s.paths := by
      have htimers : f.timers = f.pc.timersAhead + 1 := by
        rw [Frame.timers, hdeadline]
        rfl
      rw [Frame.workload, Frame.workload, htimers]
      rfl
    show _ + 1 ≤ workload s w + 0
    omega
  | abortActiveJobs =>
    cases hstep
    have hframes := abortActiveJobs_map w (Frame.workload s.paths) fun _ => rfl
    -- rejecting the waiters stops their timers
    have htimers : (w.pool.rejectWaiters
        (.other { message := "Process is shutting down" })).timers.length ≤
          w.pool.timers.length := by
      refine WorkerPool.rejectWaiters_invariant
        (fun pool => pool.timers.length ≤ w.pool.timers.length) w.pool _ (Nat.le_refl _) ?_
      intro pool call rest hle _
      exact Nat.le_trans (List.length_erase_le ..) hle
    show (_ + _ + _ + _) + 0 ≤ workload s w + 0
    unfold workload
    rw [hframes]
    exact Nat.add_le_add_left htimers _
  | clock now =>
    cases hstep
    exact Nat.le_refl _

/-! ## Whole runs -/

/-- What a job has yet to do; one that is not accepted yet has everything to do. -/
def awaitsOf (s : Setup) (job : Nat) (w : World) : Nat :=
  (w.frames[job]?.map fun f => f.pc.awaits s.paths).getD (2 * s.paths + 14)

/-- A job's `await`s go on only when it is resumed, and each that does is one less. -/
theorem step_awaitsOf (h : AddressInv s w) (job : Nat) {a : Action}
    (hstep : step s w a = some w') :
    awaitsOf s job w' + (if (a.replyTo job).isSome then 1 else 0) ≤ awaitsOf s job w + 0 := by
  -- whoever is not resumed stands where it stood
  have hstays : ∀ f f' : Frame, w.frames[job]? = some f → w'.frames[job]? = some f' →
      f'.pc = f.pc → a.replyTo job = none →
      awaitsOf s job w' + (if (a.replyTo job).isSome then 1 else 0) ≤ awaitsOf s job w + 0 := by
    intro f f' hf hf' hpc hreply
    rw [awaitsOf, awaitsOf, hf, hf', hreply, Option.map_some, Option.map_some, hpc]
    exact Nat.le_refl _
  cases step_job hstep job with
  | absent before after other _ =>
    rw [awaitsOf, awaitsOf, before, after, Action.replyTo_eq_none other]
    exact Nat.le_refl _
  | accepted f mode isStart id after fresh _ =>
    have hbefore : w.frames[job]? = none := List.getElem?_eq_none (Nat.le_of_eq id.symm)
    have hfresh : f.pc.awaits s.paths ≤ 2 * s.paths + 14 := by
      cases fresh with
      | running solana d _ heq =>
        rw [heq]
        exact Nat.le_refl _
      | rejected error _ heq =>
        rw [heq]
        exact Nat.le_add_left 1 _
    rw [awaitsOf, awaitsOf, hbefore, after, isStart]
    exact hfresh
  | resumed reply f f' effects isResume before after resume _ _ =>
    have hpays := (Frame.resume_pays resume).awaits
    rw [show w.view.pool = w.pool from rfl, paths_length h] at hpays
    rw [awaitsOf, awaitsOf, before, after, isResume, Action.replyTo, if_pos rfl]
    exact hpays
  | stays f before after other _ _ =>
    exact hstays f f before after rfl (Action.replyTo_eq_none other)
  | deadline f isDeadline before _ after _ => exact hstays f _ before after rfl (isDeadline ▸ rfl)
  | aborted f isAbort before _ after _ => exact hstays f _ before after rfl (isAbort ▸ rfl)

/-- The arrivals of a run. -/
def accepted (as : List Action) : Nat :=
  as.countP fun a => match a with
    | .start _ => true
    | _ => false

def asked (as : List Action) : Nat :=
  as.countP fun a => match a with
    | .getWorkers => true
    | _ => false

/-- What the actions of a run bring, by jobs accepted and requests asked. -/
theorem sum_brings (s : Setup) (as : List Action) : (as.map (Action.brings s)).sum =
    accepted as * (3 * s.paths + 17) + asked as * (3 * s.paths + 3) := by
  induction as with
  | nil => simp [accepted, asked]
  | cons a rest ih =>
    rw [List.map_cons, List.sum_cons, ih, accepted, accepted, asked, asked, List.countP_cons,
      List.countP_cons]
    cases a <;> simp only [Action.brings, if_true, Bool.false_eq_true, if_false] <;> ring

/-- The work of a whole run, however its steps interleave, is bounded by its arrivals, and
    each job comes back from as many `await`s as the paths allow. -/
theorem work_bounded {start : Millis} {as : List Action}
    (h : exec (step s) (World.new s start) as = some w) :
    workload s w + as.countP Action.resumes ≤
        accepted as * (3 * s.paths + 17) + asked as * (3 * s.paths + 3) ∧
      ∀ job, (repliesTo job as).length ≤ 2 * s.paths + 14 := by
  have hkeep : ∀ w a w', AddressInv s w → step s w a = some w' → AddressInv s w' :=
    fun w a w' => addressInv_step
  constructor
  · have hpay : ∀ w a w', AddressInv s w → step s w a = some w' →
        workload s w' + a.work ≤ workload s w + a.brings s :=
      fun w a w' hinv => step_workload hinv
    have hrun := exec_potential hkeep hpay (addressInv_new s start) h
    have hwork : (as.map Action.work).sum = as.countP Action.resumes :=
      sum_map_ite_eq_countP Action.resumes as
    have hnew : workload s (World.new s start) = 0 := rfl
    rw [hwork, hnew, sum_brings] at hrun
    omega
  · intro job
    -- each step pays for itself out of what the accepted and the asked brought
    -- for one job the allowance is there from the start
    have hpay : ∀ w a w', AddressInv s w → step s w a = some w' →
        awaitsOf s job w' + (if (a.replyTo job).isSome then 1 else 0) ≤ awaitsOf s job w + 0 :=
      fun w a w' hinv => step_awaitsOf hinv job
    have hrun := exec_potential hkeep hpay (addressInv_new s start) h
    rw [sum_map_ite_eq_countP, ← List.length_filterMap_eq_countP] at hrun
    have hnone : (as.map fun _ => 0).sum = 0 := by simp
    have hnew : awaitsOf s job (World.new s start) = 2 * s.paths + 14 := rfl
    rw [hnone, hnew] at hrun
    exact Nat.le_trans (Nat.le_add_left _ _) hrun

/-- Two jobs on one address, up to where the second is queued. -/
theorem contendedRun_work : contendedRun.countP Action.resumes ≤ 40 ∧
    (repliesTo 0 contendedRun).length ≤ 16 := by
  obtain ⟨htotal, hjob⟩ := work_bounded exec_contendedRun
  exact ⟨Nat.le_trans (Nat.le_add_left _ _) htotal, hjob 0⟩

end World

end ContractPinger
