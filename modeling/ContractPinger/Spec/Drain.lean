import ContractPinger.Spec.Capacity
import ContractPinger.Spec.Cleanup
import ContractPinger.Spec.DerivedOnce
import ContractPinger.Spec.Promises
import ContractPinger.Spec.Workload

/-!
# Every job ends

What an unfinished job waits for can always come: its derivation goes on by itself, its
lease wait has a timer as long as it is not settled, and every other `await` is answered or
throws. So no job is stuck behind another, a service that gets no more arrivals comes to
rest, and at rest nothing is left over.

## Key results

- `waitsInv_reachable`: a promise that is waited for is pending with a timer, or settled
- `Frame.own_step`: an unfinished job goes on by what is its own
- `every_job_ends`: and so it ends, whatever the others do not do
- `comes_to_rest`: a service without arrivals comes to rest, and `at_rest` says how
-/

namespace ContractPinger

open Machine

/-! ## Calls on the pool are not forgotten -/

namespace WorkerPool

variable {pool : WorkerPool} {i : Nat}

/-- Settling the head of the queue forgets nobody. -/
theorem mem_calls_settleWaiter {pool' : WorkerPool} {call : Nat} {rest : List Nat}
    {outcome : Settlement} (h : i ∈ pool.calls) (hq : pool.waiters = call :: rest)
    (hsettled : pool'.settled = pool.settled) :
    i ∈ ({ pool' with waiters := rest }.settleWaiter call outcome).calls := by
  rw [calls, hq] at h
  rw [calls, settleWaiter_waiters, settleWaiter_settled, hsettled]
  simp only [List.mem_append, List.mem_cons, List.map_append, List.map_cons, List.map_nil] at h ⊢
  tauto

/-- A call of `run()` takes no promise away. -/
theorem mem_calls_onPool (effect : Effect) (now : Millis) (h : i ∈ pool.calls) :
    i ∈ (effect.onPool now pool).calls := by
  cases effect with
  | acquireWithin job =>
    show i ∈ (pool.acquireWithin job now).calls
    unfold WorkerPool.acquireWithin
    split
    · rename_i path leased hok
      rw [calls, settle_waiters, settle_settled, acquire_waiters hok, acquire_settled hok,
        List.map_append, ← List.append_assoc]
      exact List.mem_append_left _ h
    · rw [calls, settle_waiters, settle_settled, List.map_append, ← List.append_assoc]
      exact List.mem_append_left _ h
    · rcases List.mem_append.mp h with h | h
      · exact List.mem_append_left _ (List.mem_append_left _ h)
      · exact List.mem_append_right _ h
  | release path =>
    -- whoever is handed the worker leaves the queue with a settled promise
    refine handOff_invariant (fun pool => i ∈ pool.calls) _ now h ?_
    intro pool leased call rest path h hq hok
    exact mem_calls_settleWaiter h hq (acquire_settled hok)
  | _ => exact h

/-- Whoever asks has called. -/
theorem mem_calls_acquireWithin (pool : WorkerPool) (job : Nat) (now : Millis) :
    job ∈ (pool.acquireWithin job now).calls := by
  unfold WorkerPool.acquireWithin
  split
  · simp [calls]
  · simp [calls]
  · simp [calls]

/-- A stretch of code takes none away, and makes those it asks for. -/
theorem mem_calls_onPools (effects : List Effect) (now : Millis)
    (h : i ∈ pool.calls ∨ .acquireWithin i ∈ effects) :
    i ∈ (effects.foldl (fun pool effect => effect.onPool now pool) pool).calls := by
  induction effects generalizing pool with
  | nil => exact h.resolve_right List.not_mem_nil
  | cons effect rest ih =>
    refine ih ?_
    rcases h with h | h
    · exact .inl (mem_calls_onPool effect now h)
    · rcases List.mem_cons.mp h with rfl | h
      · exact .inl (mem_calls_acquireWithin pool i now)
      · exact .inr h

/-- A timer settles a promise and keeps it. -/
theorem mem_calls_expire (call : Nat) (h : i ∈ pool.calls) : i ∈ (pool.expire call).calls := by
  rw [calls, expire, settle_waiters, settle_settled, List.map_append]
  rcases List.mem_append.mp h with h | h
  · by_cases hi : i = call
    · simp [hi]
    · exact List.mem_append_left _ ((List.mem_erase_of_ne hi).mpr h)
  · exact List.mem_append_right _ (List.mem_append_left _ h)

/-- So does the shutdown, with all that wait. -/
theorem mem_calls_rejectWaiters (error : JobError) (h : i ∈ pool.calls) :
    i ∈ (pool.rejectWaiters error).calls := by
  refine rejectWaiters_invariant (fun pool => i ∈ pool.calls) pool error h ?_
  exact fun pool call rest h hq => mem_calls_settleWaiter h hq rfl

end WorkerPool

namespace World

variable {s : Setup} {w w' : World} {a : Action}

/-- No step takes a call on the pool back. -/
theorem mem_calls_step {i : Nat} (h : i ∈ w.pool.calls) (hstep : step s w a = some w') :
    i ∈ w'.pool.calls := by
  cases a with
  | start mode =>
    cases hstep
    rwa [start_pool]
  | getWorkers =>
    cases hstep
    have hpool : (w.getWorkers s).pool = w.pool := ensureAddresses_pool w s
    rwa [hpool]
  | resume job reply =>
    obtain ⟨_, _, effects, _, _, rfl⟩ := step_resume hstep
    rw [performAll_pool]
    exact WorkerPool.mem_calls_onPools effects _ (.inl h)
  | resumeRequest request reply =>
    obtain ⟨_, _, effects, _, _, rfl⟩ := step_resumeRequest hstep
    rw [performAll_pool]
    exact WorkerPool.mem_calls_onPools effects _ (.inl h)
  | resumeDerivation index reply =>
    obtain ⟨pool, _, _, rfl, hpool⟩ := step_resumeDerivation hstep
    -- a derivation touches the pool only to write the addresses
    rcases hpool with rfl | ⟨_, derived, _, rfl, _⟩
    · exact h
    · exact applyAddresses_invariant (fun pool => i ∈ pool.calls) w.pool derived h
        fun _ _ _ hi => hi
  | expire job =>
    obtain ⟨_, rfl⟩ := step_expire hstep
    exact WorkerPool.mem_calls_expire job h
  | respondDeadline job =>
    obtain ⟨_, _, _, rfl⟩ := step_respondDeadline hstep
    exact h
  | abortActiveJobs =>
    cases hstep
    exact WorkerPool.mem_calls_rejectWaiters _ h
  | clock now =>
    cases hstep
    exact h

end World

/-! ## What is waited for -/

namespace Frame

/-- Past a `throwIfAborted` a job is where it was going, or has rejected. -/
theorem proceed_pc_cases (f : Frame) (pc : Pc) (before after : List Effect) :
    (f.proceed pc before after).1.pc = pc ∨
      (f.proceed pc before after).1.pc = .rejected .shutdown := by
  unfold proceed
  split
  · exact .inr rfl
  · exact .inl rfl

/-- A build that failed ends the job, or rejects. -/
theorem buildFailed_pc_cases (f : Frame) (job balance : Nat) (path : String) (e : JsError) :
    (resumeLeased.buildFailed job path f balance e).1.pc = .ended ∨
      (resumeLeased.buildFailed job path f balance e).1.pc = .rejected (.other e) := by
  unfold resumeLeased.buildFailed
  split
  · exact .inl rfl
  · exact .inr rfl

/-- The check for a shutdown goes on, or has the run reject. -/
theorem proceed_not_ensuring {f : Frame} {pc : Pc} {before after : List Effect} {d : Nat}
    (hpc : pc ≠ .ensuringAddresses d) :
    (f.proceed pc before after).1.pc ≠ .ensuringAddresses d := by
  rcases proceed_pc_cases f pc before after with hsame | hrejected
  · rwa [hsame]
  · rw [hrejected]
    exact nofun

/-- Only a fresh job stands at `ensureAddresses`. -/
theorem resumeLeased_not_ensuring {s : Setup} {view : RunView} {job d : Nat} {path : String}
    {f : Frame} {pc : Pc} {reply : Reply} {next : Frame × List Effect}
    (h : f.resumeLeased s view job path pc reply = some next) :
    next.1.pc ≠ .ensuringAddresses d := by
  cases resumeLeased_stretch h
  case funded => exact proceed_not_ensuring (by simp)
  case built => exact proceed_not_ensuring (by simp)
  case nonceFailed balance e =>
    rcases buildFailed_pc_cases f job balance path e with hpc | hpc <;> simp [hpc]
  case estimateFailed balance _ _ e =>
    rcases buildFailed_pc_cases f job balance path e with hpc | hpc <;> simp [hpc]
  all_goals simp [underfunded, returns, throws, finish, await]

/-- No job comes back to `ensureAddresses`. -/
theorem resume_not_ensuring {s : Setup} {view : RunView} {job d : Nat} {f : Frame} {reply : Reply}
    {next : Frame × List Effect} (h : f.resume s view job reply = some next) :
    next.1.pc ≠ .ensuringAddresses d := by
  cases resume_stretch h
  case asked => exact proceed_not_ensuring (by simp)
  case works h => exact resumeLeased_not_ensuring h
  all_goals simp [throws, finish, await]

/-- Only a job with a worker gets as far as the respond. -/
theorem resume_responding {s : Setup} {view : RunView} {job : Nat} {f : Frame} {reply : Reply}
    {next : Frame × List Effect} (h : f.resume s view job reply = some next)
    (hpc : next.1.pc = .responding) : next.1.worker.isSome = true := by
  have hworker : f.worker.isSome = true := by
    cases resume_stretch h
    case asked =>
      rcases proceed_pc_cases f .leasing [] [.acquireWithin job] with hq | hq <;>
        rw [hq] at hpc <;> cases hpc
    case works path hworker _ => simp [hworker]
    all_goals cases hpc
  rcases resume_worker h with ⟨hsame, _⟩ | ⟨path, _, _, htaken⟩
  · rwa [hsame]
  · rw [htaken]
    rfl

end Frame

namespace World

variable {s : Setup} {w w' : World} {a : Action}

/-- What is waited for exists: the call of whoever stands at `acquireWithin`, the derivation of
    whoever stands at `ensureAddresses`, the worker whose balance a request reads, and the
    worker of whoever awaits the respond. -/
structure WaitsInv (w : World) : Prop where
  called : ∀ (job : Nat) (f : Frame), w.frames[job]? = some f → f.pc = .leasing →
    job ∈ w.pool.calls
  ensuring : ∀ (job : Nat) (f : Frame) (d : Nat), w.frames[job]? = some f →
    f.pc = .ensuringAddresses d → d < w.derivations.length
  ensuringRequests : ∀ d, .ensuringAddresses d ∈ w.requests → d < w.derivations.length
  refreshing : .refreshing [] ∉ w.requests
  responding : ∀ (job : Nat) (f : Frame), w.frames[job]? = some f → f.pc = .responding →
    f.worker.isSome = true

/-- Nobody waits on a new service. -/
theorem waitsInv_new (s : Setup) (now : Millis) : (World.new s now).WaitsInv where
  called _ _ h := nomatch h
  ensuring _ _ _ h := nomatch h
  ensuringRequests _ h := nomatch h
  refreshing h := nomatch h
  responding _ _ h := nomatch h

/-- Only a fresh request stands at `ensureAddresses`. -/
theorem resumeRequest_not_ensuring {pc pc' : RequestPc} {reply : Reply} {effects : List Effect}
    {d : Nat} (h : w.resumeRequest s pc reply = some (pc', effects)) :
    pc' ≠ .ensuringAddresses d := by
  have hfrom : ∀ pool rest, refreshFrom pool rest ≠ .ensuringAddresses d := by
    intro pool rest
    unfold refreshFrom
    split <;> simp
  cases resumeRequest_stretch h
  case derived => exact hfrom _ _
  case refreshed => exact hfrom _ _
  all_goals simp

/-- The loop of `refreshBalances` stands at a worker, or is left. -/
theorem resumeRequest_not_refreshing {pc pc' : RequestPc} {reply : Reply} {effects : List Effect}
    (h : w.resumeRequest s pc reply = some (pc', effects)) : pc' ≠ .refreshing [] := by
  have hfrom : ∀ pool rest, refreshFrom pool rest ≠ .refreshing [] := by
    intro pool rest
    unfold refreshFrom
    split <;> simp
  cases resumeRequest_stretch h
  case derived => exact hfrom _ _
  case refreshed => exact hfrom _ _
  all_goals simp

/-- No derivation is taken back. -/
theorem derivations_length_step (hstep : step s w a = some w') :
    w.derivations.length ≤ w'.derivations.length := by
  cases step_derivationMove hstep with
  | quiet hderivations => rw [hderivations]
  | begin d _ _ hderivations => simp [hderivations]
  | advance _ _ _ _ _ _ hderivations => simp [hderivations]
  | fulfil _ _ _ _ hderivations => simp [hderivations]
  | reject _ _ _ hderivations => simp [hderivations]

/-- The derivation a caller of `ensureAddresses` joins. -/
theorem ensureAddresses_joined (h : AddressInv s w) :
    (w.ensureAddresses s).2 < (w.ensureAddresses s).1.derivations.length := by
  unfold ensureAddresses
  split
  · rename_i derivation hready
    obtain ⟨d, hd, _⟩ := h.ready derivation hready
    exact (List.getElem?_eq_some_iff.mp hd).1
  · simp

/-- A fresh job joins a derivation that exists. -/
theorem start_ensuring (h : AddressInv s w) {mode : TxMode} {f : Frame} {d : Nat}
    (hf : (w.start s mode).frames[w.frames.length]? = some f) (hpc : f.pc = .ensuringAddresses d) :
    d < (w.start s mode).derivations.length := by
  revert hf
  unfold start
  dsimp only
  split
  · intro hf
    simp only [List.getElem?_concat_length, Option.some.injEq] at hf
    rw [← hf] at hpc
    -- refused at the shutdown, the job waits for nothing
    cases hpc
  · intro hf
    -- the derivation it joins is there once it has joined
    rw [ensureAddresses_frames] at hf
    simp only [List.getElem?_concat_length, Option.some.injEq] at hf
    rw [← hf] at hpc
    cases hpc
    exact ensureAddresses_joined (h.quiet rfl rfl rfl h.past h.pastRequests)

/-- Where a request of the next state comes from. -/
inductive RequestOrigin (s : Setup) (w w' : World) (pc : RequestPc) : Prop
  | old (mem : pc ∈ w.requests)
  | fresh (eq : pc = .ensuringAddresses (w.ensureAddresses s).2)
      (derivations : w'.derivations = (w.ensureAddresses s).1.derivations)
  | resumed (before : RequestPc) (reply : Reply) (effects : List Effect)
      (resume : w.resumeRequest s before reply = some (pc, effects))

/-- A request was there before, is new, or has just been resumed. -/
theorem step_requests (hstep : step s w a = some w') (pc : RequestPc) (hpc : pc ∈ w'.requests) :
    RequestOrigin s w w' pc := by
  cases a with
  | start mode =>
    cases hstep
    exact .old (by rwa [start_requests] at hpc)
  | getWorkers =>
    cases hstep
    simp only [getWorkers, ensureAddresses_requests, List.mem_append, List.mem_singleton] at hpc
    rcases hpc with hpc | hpc
    · exact .old hpc
    · exact .fresh hpc rfl
  | resume job reply =>
    obtain ⟨_, _, _, _, _, rfl⟩ := step_resume hstep
    exact .old (by rwa [performAll_requests] at hpc)
  | resumeRequest request reply =>
    obtain ⟨before, after, effects, _, hresume, rfl⟩ := step_resumeRequest hstep
    rw [performAll_requests] at hpc
    -- of the requests only the one that goes on changes
    rcases List.mem_or_eq_of_mem_set hpc with hpc | rfl
    · exact .old hpc
    · exact .resumed before reply effects hresume
  | resumeDerivation index reply =>
    obtain ⟨_, _, _, rfl, _⟩ := step_resumeDerivation hstep
    exact .old hpc
  | expire job =>
    obtain ⟨_, rfl⟩ := step_expire hstep
    exact .old hpc
  | respondDeadline job =>
    obtain ⟨_, _, _, rfl⟩ := step_respondDeadline hstep
    exact .old hpc
  | abortActiveJobs =>
    cases hstep
    exact .old hpc
  | clock now =>
    cases hstep
    exact .old hpc

namespace WaitsInv

/-- A step keeps what a job waits for. -/
theorem called_step (h : w.WaitsInv) (hleases : w.LeaseInv) (hstep : step s w a = some w')
    {job : Nat} {f : Frame} (hf : w'.frames[job]? = some f) (hpc : f.pc = .leasing) :
    job ∈ w'.pool.calls := by
  -- whoever stood there has called, and stays called
  have hstood : ∀ g : Frame, w.frames[job]? = some g → g.pc = .leasing → job ∈ w'.pool.calls :=
    fun g hg hgpc => mem_calls_step (h.called job g hg hgpc) hstep
  cases step_job hstep job with
  | absent _ after => cases hf.symm.trans after
  | accepted g _ _ _ after fresh _ =>
    cases hf.symm.trans after
    cases fresh with
    | running _ _ _ heq => rw [heq] at hpc; cases hpc
    | rejected _ _ heq => rw [heq] at hpc; cases hpc
  | resumed reply g g' effects _ before after resume pool _ =>
    cases hf.symm.trans after
    obtain ⟨_, hmove⟩ := Frame.resume_lease (hleases.wf g (List.mem_of_getElem? before)) resume
    have hwaiting : f.tenure = .waiting := Frame.tenure_waiting.mpr hpc
    generalize hcalls : effects.filter Effect.movesLease = calls at hmove
    generalize hold : g.tenure = old at hmove
    dsimp only at hmove hcalls
    rw [hwaiting] at hmove
    cases hmove with
    | keep => exact hstood g before (Frame.tenure_waiting.mp hold)
    | ask =>
      have hask : .acquireWithin job ∈ effects.filter Effect.movesLease := by
        rw [hcalls]
        exact List.mem_singleton_self _
      rw [pool]
      exact WorkerPool.mem_calls_onPools effects w.now (.inr (List.mem_of_mem_filter hask))
  | stays g before after _ _ _ =>
    cases hf.symm.trans after
    exact hstood f before hpc
  | deadline g _ before _ after _ =>
    cases hf.symm.trans after
    exact hstood g before hpc
  | aborted g _ before _ after _ =>
    cases hf.symm.trans after
    exact hstood g before hpc

/-- Whoever stands at `ensureAddresses` after a step has a derivation. -/
theorem ensuring_step (h : w.WaitsInv) (haddresses : AddressInv s w)
    (hstep : step s w a = some w') {job d : Nat} {f : Frame} (hf : w'.frames[job]? = some f)
    (hpc : f.pc = .ensuringAddresses d) : d < w'.derivations.length := by
  have hstood : ∀ g : Frame, w.frames[job]? = some g → g.pc = .ensuringAddresses d →
      d < w'.derivations.length :=
    fun g hg hgpc => Nat.lt_of_lt_of_le (h.ensuring job g d hg hgpc)
      (derivations_length_step hstep)
  cases step_job hstep job with
  | absent _ after => cases hf.symm.trans after
  | accepted g mode isStart id after _ _ =>
    subst isStart id
    cases hstep
    -- a new job stands at the derivation it joined or began
    exact start_ensuring haddresses hf hpc
  | resumed reply g g' effects _ before after resume _ _ =>
    cases hf.symm.trans after
    -- and a job that went on has left `ensureAddresses` behind
    exact absurd hpc (Frame.resume_not_ensuring resume)
  | stays g before after _ _ _ =>
    cases hf.symm.trans after
    exact hstood f before hpc
  | deadline g _ before _ after _ =>
    cases hf.symm.trans after
    exact hstood g before hpc
  | aborted g _ before _ after _ =>
    cases hf.symm.trans after
    exact hstood g before hpc

/-- The same of the requests. -/
theorem ensuringRequests_step (h : w.WaitsInv) (haddresses : AddressInv s w)
    (hstep : step s w a = some w') {d : Nat} (hd : .ensuringAddresses d ∈ w'.requests) :
    d < w'.derivations.length := by
  cases step_requests hstep _ hd with
  | old hmem =>
    exact Nat.lt_of_lt_of_le (h.ensuringRequests d hmem) (derivations_length_step hstep)
  | fresh heq hderivations =>
    cases heq
    rw [hderivations]
    exact ensureAddresses_joined haddresses
  | resumed pc reply effects hresume => exact absurd rfl (resumeRequest_not_ensuring hresume)

/-- A request that has no balance left to read does not stand at one. -/
theorem refreshing_step (h : w.WaitsInv) (hstep : step s w a = some w') :
    .refreshing [] ∉ w'.requests := by
  intro hmem
  cases step_requests hstep _ hmem with
  | old hold => exact h.refreshing hold
  | fresh heq _ => cases heq
  | resumed pc reply effects hresume => exact resumeRequest_not_refreshing hresume rfl

/-- Whoever awaits the respond has a worker. -/
theorem responding_step (h : w.WaitsInv) (hstep : step s w a = some w') {job : Nat} {f : Frame}
    (hf : w'.frames[job]? = some f) (hpc : f.pc = .responding) : f.worker.isSome = true := by
  cases step_job hstep job with
  | absent _ after => cases hf.symm.trans after
  | accepted g _ _ _ after fresh _ =>
    cases hf.symm.trans after
    -- a new job is far from it
    cases fresh with
    | running _ _ _ heq => rw [heq] at hpc; cases hpc
    | rejected _ _ heq => rw [heq] at hpc; cases hpc
  | resumed reply g g' effects _ before after resume _ _ =>
    cases hf.symm.trans after
    exact Frame.resume_responding resume hpc
  | stays g before after _ _ _ =>
    cases hf.symm.trans after
    exact h.responding job f before hpc
  | deadline g _ before _ after _ =>
    cases hf.symm.trans after
    exact h.responding job g before hpc
  | aborted g _ before _ after _ =>
    cases hf.symm.trans after
    exact h.responding job g before hpc

end WaitsInv

/-- What is waited for exists after a step. -/
theorem waitsInv_step (h : w.WaitsInv) (hleases : w.LeaseInv) (haddresses : AddressInv s w)
    (hstep : step s w a = some w') : w'.WaitsInv where
  called _ _ hf hpc := h.called_step hleases hstep hf hpc
  ensuring _ _ _ hf hpc := h.ensuring_step haddresses hstep hf hpc
  ensuringRequests _ hd := h.ensuringRequests_step haddresses hstep hd
  refreshing := h.refreshing_step hstep
  responding _ _ hf hpc := h.responding_step hstep hf hpc

/-- What is waited for exists in every reachable state. -/
theorem waitsInv_reachable {start : Millis} (h : Reachable (step s) (World.new s start) w) :
    w.WaitsInv :=
  h.invariant' (waitsInv_new s start) fun _ _ _ hr hinv _ hstep =>
    waitsInv_step hinv (leaseInv_reachable hr) (addressInv_reachable hr) hstep

end World

/-! ## Nobody is stuck -/

/-- What a job can wait for by itself: its own answers, its own timer and the derivations. -/
def Action.own (job : Nat) : Action → Prop
  | .resume other _ => other = job
  | .resumeDerivation _ _ => True
  | .expire other => other = job
  | _ => False

namespace World

variable {s : Setup} {w w' : World} {a : Action}

/-- A job that can be resumed is one the service can go on with. -/
theorem enabled_resume {job : Nat} {f : Frame} {reply : Reply} (hf : w.frames[job]? = some f)
    (h : (f.resume s w.view job reply).isSome = true) : step s w (.resume job reply) ≠ none := by
  obtain ⟨next, hnext⟩ := Option.isSome_iff_exists.mp h
  simp only [step, hf, Option.bind_some, hnext, Option.map_some]
  exact Option.some_ne_none _

/-- A derivation that is not settled goes on by itself. -/
theorem enabled_resumeDerivation {d : Nat} (hlt : d < w.derivations.length)
    (hpending : w.derived d = none) : step s w (.resumeDerivation d .resume) ≠ none := by
  obtain ⟨derivation, hd⟩ : ∃ derivation, w.derivations[d]? = some derivation :=
    ⟨_, List.getElem?_eq_getElem hlt⟩
  rw [derived, hd, Option.bind_some] at hpending
  simp only [step, hd, Option.bind_some]
  cases derivation with
  | «deriving» solana rest derived => cases rest <;> exact Option.some_ne_none _
  | failing error => exact Option.some_ne_none _
  | fulfilled => cases hpending
  | rejected error => cases hpending

/-- A promise that is waited for is pending with a timer, or settled. -/
theorem timer_of_leasing (h : w.WaitsInv) (hleases : w.LeaseInv) {job : Nat} {f : Frame}
    (hf : w.frames[job]? = some f) (hpc : f.pc = .leasing) :
    job ∈ w.pool.timers ∨ ∃ outcome, w.pool.settlement job = some outcome := by
  rw [hleases.ledger.timers_eq]
  rcases List.mem_append.mp (h.called job f hf hpc) with hwaiting | hsettled
  · exact .inl hwaiting
  · obtain ⟨⟨_, outcome⟩, hmem, rfl⟩ := List.mem_map.mp hsettled
    exact .inr ⟨outcome, (List.lookup_eq_some_iff_mem
      hleases.ledger.calls_nodup.of_append_right).mpr hmem⟩

/-- An unfinished job can go on, by something that is its own. -/
theorem own_step (h : w.WaitsInv) (hleases : w.LeaseInv) {job : Nat} {f : Frame}
    (hf : w.frames[job]? = some f) (hopen : f.pc ≠ .ended) :
    ∃ a : Action, a.own job ∧ step s w a ≠ none := by
  have hresume : ∀ reply, (f.resume s w.view job reply).isSome = true →
      ∃ a : Action, a.own job ∧ step s w a ≠ none :=
    fun reply hsome => ⟨.resume job reply, rfl, enabled_resume hf hsome⟩
  have hwf := hleases.wf f (List.mem_of_getElem? hf)
  -- an external call may always throw
  have hthrow := hresume (.throw abortError)
  cases hpc : f.pc with
  | ensuringAddresses d =>
    cases hderived : w.derived d with
    | none =>
      exact ⟨.resumeDerivation d .resume, trivial,
        enabled_resumeDerivation (h.ensuring job f d hf hpc) hderived⟩
    | some outcome =>
      refine hresume .resume ?_
      cases outcome <;> simp [Frame.resume, hpc, view, hderived]
  | reconciling rest =>
    cases rest with
    | nil => exact hresume .resume (by simp [Frame.resume, hpc])
    | cons path rest => exact hthrow (by simp [Frame.resume, hpc])
  | refreshingUnderfunded rest =>
    cases rest with
    | nil => exact hresume .resume (by simp [Frame.resume, hpc])
    | cons path rest => exact hthrow (by simp [Frame.resume, hpc])
  | leasing =>
    rcases timer_of_leasing h hleases hf hpc with htimer | ⟨outcome, hset⟩
    · refine ⟨.expire job, rfl, ?_⟩
      simp only [step, if_pos htimer]
      exact Option.some_ne_none _
    · refine hresume .resume ?_
      cases outcome <;> simp [Frame.resume, hpc, view, hset]
  | rejected e => exact hresume .resume (by simp [Frame.resume, hpc])
  | ended => exact absurd hpc hopen
  | responding =>
    obtain ⟨path, hworker⟩ := Option.isSome_iff_exists.mp (h.responding job f hf hpc)
    exact hthrow (by simp [Frame.resume, Frame.resumeLeased, hpc, hworker])
  | attachingSignature built rsv =>
    have hphase : f.phase = .held := Frame.phase_eq hpc
    simp only [Frame.Wf, hphase] at hwf
    obtain ⟨path, hworker⟩ := Option.isSome_iff_exists.mp hwf.1
    refine hresume .resume ?_
    simp only [Frame.resume, Frame.resumeLeased, hpc, hworker]
    split
    · rfl
    · split <;> rfl
  | _ =>
    have hphase : f.phase = .held := Frame.phase_eq hpc
    simp only [Frame.Wf, hphase] at hwf
    obtain ⟨path, hworker⟩ := Option.isSome_iff_exists.mp hwf.1
    exact hthrow (by simp [Frame.resume, Frame.resumeLeased, hpc, hworker])

/-- So does an unanswered request. -/
theorem request_step (h : w.WaitsInv) {request : Nat} {pc : RequestPc}
    (hpc : w.requests[request]? = some pc) (hopen : ∀ ok, pc ≠ .answered ok) :
    ∃ a : Action, a.resumes = true ∧ step s w a ≠ none := by
  have hresume : ∀ reply, (w.resumeRequest s pc reply).isSome = true →
      ∃ a : Action, a.resumes = true ∧ step s w a ≠ none := by
    intro reply hsome
    obtain ⟨next, hnext⟩ := Option.isSome_iff_exists.mp hsome
    refine ⟨.resumeRequest request reply, rfl, ?_⟩
    simp only [step, hpc, Option.bind_some, hnext, Option.map_some]
    exact Option.some_ne_none _
  cases pc with
  | ensuringAddresses d =>
    cases hderived : w.derived d with
    | none =>
      -- the derivation it stands at exists, and has not settled: that one goes on
      have hlt := h.ensuringRequests d (List.mem_of_getElem? hpc)
      exact ⟨.resumeDerivation d .resume, rfl, enabled_resumeDerivation hlt hderived⟩
    | some outcome =>
      refine hresume .resume ?_
      cases outcome <;> simp [resumeRequest, hderived]
  | refreshing rest =>
    cases rest with
    | nil => exact absurd (List.mem_of_getElem? hpc) h.refreshing
    -- whatever is awaited of a node may throw
    | cons path rest => exact hresume (.throw abortError) rfl
  | reconciling rest =>
    cases rest with
    | nil => exact hresume .resume rfl
    | cons path rest => exact hresume (.throw abortError) rfl
  | answered ok => exact absurd rfl (hopen ok)

/-- And a derivation in flight. -/
theorem derivation_step (h : ∃ d ∈ w.derivations, d.inFlight = true) :
    ∃ a : Action, a.resumes = true ∧ step s w a ≠ none := by
  obtain ⟨d, hmem, hflight⟩ := h
  obtain ⟨i, hi⟩ := List.mem_iff_getElem?.mp hmem
  have hpending : w.derived i = none := by
    rw [derived, hi]
    exact Derivation.inFlight_iff.mp hflight
  exact ⟨.resumeDerivation i .resume, rfl,
    enabled_resumeDerivation (List.getElem?_eq_some_iff.mp hi).1 hpending⟩

/-! ## At rest -/

/-- Nothing is left over: no activation, no timer, no listed controller, no lease and no live
    record. -/
structure AtRest (w : World) : Prop where
  jobs : ∀ f ∈ w.frames, f.pc = .ended ∧ f.listed = false ∧ f.respondDeadline = false
  requests : ∀ pc ∈ w.requests, ∃ ok, pc = .answered ok
  derivations : ∀ d ∈ w.derivations, d.inFlight = false
  queue : w.pool.waiters = [] ∧ w.pool.timers = []
  leases : ∀ worker ∈ w.pool.workers, worker.busy = false
  records : ∀ r ∈ w.jobs.jobs, r.state.terminal = true
  counts : w.jobs.activeCount = 0 ∧ w.jobs.awaitingRespondCount = 0

/-- An ended job is not resumed any more. -/
theorem step_resume_ended {job : Nat} {f : Frame} {reply : Reply} (hf : w.frames[job]? = some f)
    (hended : f.pc = .ended) : step s w (.resume job reply) = none := by
  have hnone : f.resume s w.view job reply = none := by
    unfold Frame.resume
    rw [hended]
    cases f.worker <;> rfl
  simp only [step, hf, Option.bind_some, hnone, Option.map_none]

/-- Nor is a derivation that is settled. -/
theorem step_resumeDerivation_settled {d : Nat} {reply : Reply}
    (hsettled : ∀ e ∈ w.derivations, e.inFlight = false) :
    step s w (.resumeDerivation d reply) = none := by
  refine Option.bind_eq_none_iff.mpr fun e he => ?_
  have hflight := hsettled e (List.mem_of_getElem? he)
  cases e with
  | fulfilled => rfl
  | rejected e => rfl
  | _ => cases hflight

/-- With every job ended, every request answered, every derivation settled and no timer set,
    nothing goes on by itself. -/
theorem stuck_of_over (hjobs : ∀ f ∈ w.frames, f.pc = .ended ∧ f.respondDeadline = false)
    (hrequests : ∀ pc ∈ w.requests, ∃ ok, pc = .answered ok)
    (hderivations : ∀ d ∈ w.derivations, d.inFlight = false) (htimers : w.pool.timers = []) :
    Stuck (step s) (fun a => a.resumes = true) w := by
  intro a ha
  cases a with
  | resume job reply =>
    cases hf : w.frames[job]? with
    | none => simp [step, hf]
    | some f => exact step_resume_ended hf (hjobs f (List.mem_of_getElem? hf)).1
  | resumeRequest request reply =>
    -- a request that was answered is resumed by nothing
    refine Option.bind_eq_none_iff.mpr fun pc hpc => ?_
    obtain ⟨ok, rfl⟩ := hrequests pc (List.mem_of_getElem? hpc)
    rfl
  | resumeDerivation d reply => exact step_resumeDerivation_settled hderivations
  | expire job => simp [step, htimers]
  | respondDeadline job =>
    refine Option.bind_eq_none_iff.mpr fun f hf => ?_
    simp [(hjobs f (List.mem_of_getElem? hf)).2]
  | start | getWorkers | abortActiveJobs | clock => cases ha

/-- At rest, nothing goes on by itself. -/
theorem AtRest.stuck (h : w.AtRest) : Stuck (step s) (fun a => a.resumes = true) w :=
  stuck_of_over (fun f hf => ⟨(h.jobs f hf).1, (h.jobs f hf).2.2⟩) h.requests h.derivations
    h.queue.2

/-- Where nothing goes on by itself, the service is at rest. -/
theorem atRest_of_stuck {start : Millis} (h : Reachable (step s) (World.new s start) w)
    (hstuck : Stuck (step s) (fun a => a.resumes = true) w) : w.AtRest := by
  have hwaits := waitsInv_reachable h
  have hleases := leaseInv_reachable h
  have hjobs := jobsInv_reachable h
  have hnone : ∀ a : Action, a.resumes = true → ¬ step s w a ≠ none :=
    fun a ha henabled => henabled (hstuck a ha)
  have hended : ∀ (job : Nat) (f : Frame), w.frames[job]? = some f → f.pc = .ended := by
    intro job f hf
    by_contra hopen
    obtain ⟨a, hown, henabled⟩ := own_step hwaits hleases hf hopen
    refine hnone a ?_ henabled
    cases a <;> first | rfl | cases hown
  have hrecords : ∀ r ∈ w.jobs.jobs, r.state.terminal = true := by
    intro r hr
    obtain ⟨f, hf, htracks⟩ := hjobs.tracks r hr
    rw [hended r.id f hf] at htracks
    exact htracks.terminal
  have htimers : w.pool.timers = [] := by
    refine List.eq_nil_iff_forall_not_mem.mpr fun job hjob => ?_
    refine hnone (.expire job) rfl ?_
    simp only [step, if_pos hjob]
    exact Option.some_ne_none _
  refine ⟨?_, ?_, ?_, ⟨?_, htimers⟩, ?_, hrecords, ?_⟩
  · intro f hmem
    obtain ⟨job, hf⟩ := List.mem_iff_getElem?.mp hmem
    have hpc := hended job f hf
    obtain ⟨as, has⟩ := exec_of_reachable h
    have hbalanced := cleanupInv_exec has job
    rw [hf] at hbalanced
    obtain ⟨_, htidy⟩ := hbalanced
    exact ⟨hpc, htidy.unlisted (by rw [hpc]; rfl), htidy.deadline (by rw [hpc]; decide)⟩
  · intro pc hmem
    obtain ⟨request, hpc⟩ := List.mem_iff_getElem?.mp hmem
    by_contra hopen
    obtain ⟨a, ha, henabled⟩ := request_step (s := s) hwaits hpc fun ok hok => hopen ⟨ok, hok⟩
    exact hnone a ha henabled
  · intro d hmem
    by_contra hflight
    rw [Bool.not_eq_false] at hflight
    obtain ⟨a, ha, henabled⟩ := derivation_step (s := s) ⟨d, hmem, hflight⟩
    exact hnone a ha henabled
  · rw [← hleases.ledger.timers_eq, htimers]
  · intro worker hworker
    by_contra hbusy
    rw [Bool.not_eq_false, hleases.busy_iff hworker] at hbusy
    -- somebody would hold the address, in a run that has ended
    obtain ⟨job, f, hf, hopen, _⟩ := hbusy
    exact hopen (hended job f hf)
  · have hlive : w.jobs.liveCount = 0 := by
      rw [JobStore.liveCount_eq, List.countP_eq_zero]
      intro r hr
      rw [hrecords r hr]
      decide
    exact Nat.add_eq_zero_iff.mp hlive

/-- Whatever goes on by itself takes from the workload. -/
theorem workload_lt {start : Millis} (h : Reachable (step s) (World.new s start) w)
    (ha : a.resumes = true) (hstep : step s w a = some w') : workload s w' < workload s w := by
  have hpays := step_workload (addressInv_reachable h) hstep
  have hbrings : a.brings s = 0 := by cases a <;> first | rfl | cases ha
  rw [Action.work, if_pos ha, hbrings] at hpays
  omega

/-- Without arrivals a service comes to rest: what goes on by itself, in whatever order and
    however it is answered, ends after as many steps as there is work, and at the end nothing
    is left over. -/
theorem comes_to_rest {start : Millis} (h : Reachable (step s) (World.new s start) w) :
    (∃ as w', (∀ a ∈ as, a.resumes = true) ∧ exec (step s) w as = some w' ∧ w'.AtRest) ∧
      ∀ as w', (∀ a ∈ as, a.resumes = true) → exec (step s) w as = some w' →
        as.length ≤ workload s w ∧
          (Stuck (step s) (fun a => a.resumes = true) w' → w'.AtRest) := by
  have hkeep : ∀ w₁ a w₂, Reachable (step s) (World.new s start) w₁ → a.resumes = true →
      step s w₁ a = some w₂ → Reachable (step s) (World.new s start) w₂ :=
    fun w₁ a w₂ hr _ hstep => .tail a hr trivial hstep
  have hless : ∀ w₁ a w₂, Reachable (step s) (World.new s start) w₁ → a.resumes = true →
      step s w₁ a = some w₂ → workload s w₂ < workload s w₁ :=
    fun w₁ a w₂ hr ha hstep => workload_lt hr ha hstep
  -- the workload falls with every step, so the steps run out
  constructor
  · obtain ⟨as, w', has, hexec, hstuck⟩ := exists_exec_stuck hkeep hless h
    exact ⟨as, w', has, hexec, atRest_of_stuck (h.trans (reachable_of_exec hexec)) hstuck⟩
  · intro as w' has hexec
    have hlength := length_le_of_decreasing hkeep hless h has hexec
    exact ⟨Nat.le_trans (Nat.le_add_right _ _) hlength,
      atRest_of_stuck (h.trans (reachable_of_exec hexec))⟩

/-- The job has ended, and its record, if the store still has it, says responded or failed. -/
def Concluded (w : World) (job : Nat) : Prop :=
  (∃ f, w.frames[job]? = some f ∧ f.pc = .ended) ∧
    ∀ r ∈ w.jobs.jobs, r.id = job → r.state = .responded ∨ r.state = .failed

/-- An ended job has left its record finished. -/
theorem concluded_of_ended {start : Millis} (h : Reachable (step s) (World.new s start) w)
    {job : Nat} {f : Frame} (hf : w.frames[job]? = some f) (hended : f.pc = .ended) :
    w.Concluded job := by
  refine ⟨⟨f, hf, hended⟩, ?_⟩
  rintro r hr rfl
  have htracks := (jobsInv_reachable h).tracks_frame hr hf
  rw [hended] at htracks
  simpa [JobState.terminal] using htracks.terminal

/-- No job depends on another for its end: with every other job and request standing still, its
    own answers, its own timer and the derivations bring it there, in whatever order they come
    and however they turn out. -/
theorem every_job_ends {start : Millis} (h : Reachable (step s) (World.new s start) w)
    {job : Nat} (hjob : job < w.frames.length) :
    (∃ as w', (∀ a ∈ as, Action.own job a) ∧ exec (step s) w as = some w' ∧ w'.Concluded job) ∧
      ∀ as w', (∀ a ∈ as, Action.own job a) → exec (step s) w as = some w' →
        as.length ≤ workload s w ∧
          (Stuck (step s) (Action.own job) w' → w'.Concluded job) := by
  have hresumes : ∀ a : Action, a.own job → a.resumes = true := by
    intro a hown
    cases a <;> first | rfl | cases hown
  let Ongoing (w : World) : Prop :=
    Reachable (step s) (World.new s start) w ∧ job < w.frames.length
  have hkeep : ∀ w₁ a w₂, Ongoing w₁ → a.own job → step s w₁ a = some w₂ → Ongoing w₂ :=
    fun w₁ a w₂ hr _ hstep =>
      ⟨.tail a hr.1 trivial hstep, Nat.lt_of_lt_of_le hr.2 (frames_length_step hstep)⟩
  have hless : ∀ w₁ a w₂, Ongoing w₁ → a.own job → step s w₁ a = some w₂ →
      workload s w₂ < workload s w₁ :=
    fun w₁ a w₂ hr hown hstep => workload_lt hr.1 (hresumes a hown) hstep
  -- where nothing of its own can go on, the job has ended
  have hend : ∀ w', Ongoing w' → Stuck (step s) (Action.own job) w' → w'.Concluded job := by
    intro w' hr hstuck
    refine concluded_of_ended hr.1 (List.getElem?_eq_getElem hr.2) ?_
    by_contra hopen
    obtain ⟨a, hown, henabled⟩ := own_step (waitsInv_reachable hr.1) (leaseInv_reachable hr.1)
      (List.getElem?_eq_getElem hr.2) hopen
    exact henabled (hstuck a hown)
  have hrun : ∀ as w', exec (step s) w as = some w' → Ongoing w' := by
    intro as w' hexec
    refine ⟨h.trans (reachable_of_exec hexec), ?_⟩
    exact (reachable_of_exec hexec).invariant hjob fun _ _ _ hlt _ hstep =>
      Nat.lt_of_lt_of_le hlt (frames_length_step hstep)
  constructor
  · obtain ⟨as, w', has, hexec, hstuck⟩ := exists_exec_stuck hkeep hless ⟨h, hjob⟩
    exact ⟨as, w', has, hexec, hend w' (hrun as w' hexec) hstuck⟩
  · intro as w' has hexec
    have hlength := length_le_of_decreasing hkeep hless ⟨h, hjob⟩ has hexec
    exact ⟨Nat.le_trans (Nat.le_add_right _ _) hlength, hend w' (hrun as w' hexec)⟩

/-- The lease wait of the second of the two jobs runs out. -/
def queueExpires : List Action := [.expire 1, .resume 1 .resume, .resume 1 .resume]

/-- The state that leads to: the first job holds its address still. -/
def expiredWorld : World :=
  (exec (step sampleSetup) contendedWorld queueExpires).getD contendedWorld

theorem exec_queueExpires :
    exec (step sampleSetup) contendedWorld queueExpires = some expiredWorld :=
  exec_getD (by decide +kernel) _

/-- The second job has ended, so nothing of it goes on. -/
theorem expiredWorld_stuck : Stuck (step sampleSetup) (Action.own 1) expiredWorld := by
  intro a hown
  cases a with
  | resume job reply =>
    obtain rfl : job = 1 := hown
    exact step_resume_ended (Option.some_get (by decide +kernel)).symm (by decide +kernel)
  | resumeDerivation d reply => exact step_resumeDerivation_settled (by decide +kernel)
  | expire job =>
    obtain rfl : job = 1 := hown
    have htimers : 1 ∉ expiredWorld.pool.timers := by decide +kernel
    simp [step, htimers]
  | start | getWorkers | resumeRequest | respondDeadline | abortActiveJobs | clock => cases hown

/-- With one address, held by the first of two jobs, the second ends first. -/
theorem contendedRun_ends : contendedWorld.pool.waiters = [1] ∧
    (∃ as w', (∀ a ∈ as, Action.own 1 a) ∧ exec (step sampleSetup) contendedWorld as = some w' ∧
      w'.Concluded 1) ∧
    queueExpires.length ≤ workload sampleSetup contendedWorld ∧ expiredWorld.Concluded 1 ∧
    expiredWorld.jobs.jobs.map JobRecord.state = [.pending, .failed] := by
  have hopened : 1 < contendedWorld.frames.length := by decide +kernel
  have hends := every_job_ends (reachable_of_exec exec_contendedRun) hopened
  have hexpires := hends.2 queueExpires expiredWorld (by simp [queueExpires, Action.own])
    exec_queueExpires
  exact ⟨by decide +kernel, hends.1, hexpires.1, hexpires.2 expiredWorld_stuck, by decide +kernel⟩

/-- The first job gives up as well. -/
def lastGivesUp : List Action :=
  queueExpires ++ [.resume 0 (.throw { message := "timeout" }), .resume 0 .resume]

/-- The state that leads to. -/
def drainedWorld : World := (exec (step sampleSetup) contendedWorld lastGivesUp).getD contendedWorld

/-- Some way on comes to rest; and the one in which the second job's wait runs out and the first job
    gives up is no longer than the workload, and leaves nothing behind. -/
theorem contendedRun_rests :
    (∃ as w', (∀ a ∈ as, Action.resumes a = true) ∧
      exec (step sampleSetup) contendedWorld as = some w' ∧ w'.AtRest) ∧
    lastGivesUp.length ≤ workload sampleSetup contendedWorld ∧ drainedWorld.AtRest ∧
    drainedWorld.jobs.jobs.map JobRecord.state = [.failed, .failed] := by
  have hrests := comes_to_rest (reachable_of_exec exec_contendedRun)
  have hdrains : exec (step sampleSetup) contendedWorld lastGivesUp = some drainedWorld :=
    exec_getD (by decide +kernel) _
  have hlast := hrests.2 lastGivesUp drainedWorld (by decide) hdrains
  have hstuck : Stuck (step sampleSetup) (fun a => a.resumes = true) drainedWorld := by
    have hrequests : drainedWorld.requests = [] := by decide +kernel
    refine stuck_of_over (by decide +kernel) ?_ (by decide +kernel) (by decide +kernel)
    simp [hrequests]
  exact ⟨hrests.1, hlast.1, hlast.2 hstuck, by decide +kernel⟩

end World

end ContractPinger
