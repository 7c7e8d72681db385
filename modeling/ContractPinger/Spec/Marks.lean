import ContractPinger.Spec.Addresses

/-!
# What a job marks, and why

A job changes the standing of a worker in four places: it reconciles a quarantine, it
refreshes a balance, it fails its preflight for want of funds, or it gives up on a
transaction that may be on the chain. The last two mark the job's own worker and release it
in the same stretch of code.

## Key results

- `resume_marks`: the four places, and that there is no fifth
- `Guarded.onPools` / `Guarded.gaveUp`: a leased worker is not quarantined at any `await`
-/

namespace ContractPinger

/-- The transaction of the job may have been accepted, and no receipt has been obtained. -/
def Pc.onChain : Pc → Bool
  | .broadcasting _ _ => true
  | .confirming _ _ => true
  | _ => false

/-- The call fails a job for want of funds. -/
def Effect.failsPreflight : Effect → Bool
  | .fail _ .preflightUnderfunded _ => true
  | _ => false

/-- No call of the stretch marks a worker, nor fails a job for want of funds. -/
def Unmarked (effects : List Effect) : Prop :=
  effects.all (fun e => e.mark.isNone && !e.failsPreflight) = true

/-- No call marks a worker. -/
theorem Unmarked.mark {effects : List Effect} (h : Unmarked effects) {effect : Effect}
    (he : effect ∈ effects) : effect.mark = none := by
  have hquiet := List.all_eq_true.mp h effect he
  rw [Bool.and_eq_true] at hquiet
  exact Option.isNone_iff_eq_none.mp hquiet.1

/-- No call fails the preflight. -/
theorem Unmarked.failsPreflight {effects : List Effect} (h : Unmarked effects) {effect : Effect}
    (he : effect ∈ effects) : effect.failsPreflight = false := by
  have hquiet := List.all_eq_true.mp h effect he
  simp only [Bool.and_eq_true, Bool.not_eq_true'] at hquiet
  exact hquiet.2

/-- And none quarantines. -/
theorem Unmarked.no_quarantine {effects : List Effect} (h : Unmarked effects) :
    ∀ effect ∈ effects, ∀ path nonce, effect ≠ .quarantine path nonce := by
  rintro effect he path nonce rfl
  exact nomatch h.mark he

/-- Two such stretches make one. -/
theorem Unmarked.append {before after : List Effect} (hbefore : Unmarked before)
    (hafter : Unmarked after) : Unmarked (before ++ after) := by
  rw [Unmarked, List.all_append, hbefore, hafter]
  rfl

/-- What one stretch of a job's code marks. -/
inductive MarkMove (minBalanceWei job : Nat) (f f' : Frame) (reply : Reply)
    (effects : List Effect) : Prop
  | unmarked (marks : Unmarked effects)
      (onChain : f.pc.onChain = true →
        f'.pc.onChain = true ∧ f'.worker = f.worker ∨ ∃ success, reply = .receipt success)
  | reconciled (path : String) (rest : List String) (latest pending : Nat)
      (pc : f.pc = .reconciling (path :: rest)) (counts : reply = .counts latest pending)
      (calls : effects = [.reconcile path (decide (latest < pending))])
  | refreshed (path : String) (rest : List String) (balance : Nat)
      (pc : f.pc = .refreshingUnderfunded (path :: rest)) (read : reply = .balance balance)
      (calls : effects = [.setBalance path balance minBalanceWei])
  | tooPoor (path : String) (balance threshold : Nat) (error : JobError)
      (offChain : f.pc.onChain = false) (worker : f.worker = some path)
      (poor : balance < threshold)
      (calls : effects = [.setBalance path balance threshold,
        .fail job .preflightUnderfunded error, .release path])
  | gaveUp (path : String) (nonce : Nat) (reason : FailureReason) (error : JobError)
      (onChain : f.pc.onChain = true) (worker : f.worker = some path)
      (cause : reason ≠ .preflightUnderfunded)
      (calls : effects = [.quarantine path nonce, .fail job reason error, .release path])

namespace Frame

section Ways

variable {m job : Nat} {f f' : Frame} {reply : Reply} {effects : List Effect} {pc : Pc}

/-- Releasing a lease marks nothing. -/
theorem unmarked_releaseLease (g : Frame) : Unmarked g.releaseLease.2 :=
  all_releaseLease fun _ => rfl

/-- Nor does the `finally` block. -/
theorem unmarked_finish {g : Frame} (heffects : Unmarked effects) :
    Unmarked (g.finish pc effects).2 :=
  all_finish (fun _ => rfl) heffects

/-- Off the chain, a stretch of code that marks nothing and suspends again. -/
private theorem marks_await (hpc : f.pc.onChain = false) (hmarks : Unmarked effects) :
    MarkMove m job f f' reply effects :=
  .unmarked hmarks fun h => absurd h (by rw [hpc]; exact nofun)

/-- A run that leaves off the chain, marking nothing. -/
private theorem marks_finish (hpc : f.pc.onChain = false) (hmarks : Unmarked effects) :
    MarkMove m job f (f.finish pc effects).1 reply (f.finish pc effects).2 :=
  marks_await hpc (unmarked_finish hmarks)

/-- Throwing. -/
private theorem marks_throws {error : JobError} (hpc : f.pc.onChain = false)
    (hmarks : Unmarked effects) :
    MarkMove m job f (f.throws error effects).1 reply (f.throws error effects).2 :=
  marks_finish hpc hmarks

/-- Returning. -/
private theorem marks_returns (hpc : f.pc.onChain = false) (hmarks : Unmarked effects) :
    MarkMove m job f (f.returns effects).1 reply (f.returns effects).2 :=
  marks_finish hpc hmarks

/-- Past a `throwIfAborted`. -/
private theorem marks_proceed {before after : List Effect} (hpc : f.pc.onChain = false)
    (hbefore : Unmarked before) (hafter : Unmarked after) :
    MarkMove m job f (f.proceed pc before after).1 reply (f.proceed pc before after).2 := by
  unfold proceed
  split
  · exact marks_finish hpc hbefore
  · exact marks_await hpc (hbefore.append hafter)

/-- The `finally` block releases the lease of a job that holds one. -/
theorem releaseLease_of_held {path : String} (hwf : f.Wf) (hheld : f.phase = .held)
    (hworker : f.worker = some path) :
    f.releaseLease = ({ f with leaseReleased := true }, [.release path]) := by
  simp only [Wf, hheld] at hwf
  simp only [releaseLease, hworker, hwf.2]

/-- The preflight marks the worker it refuses. -/
private theorem tooPoor_underfunded {path : String} {balance threshold : Nat} {error : JobError}
    (hwf : f.Wf) (hheld : f.phase = .held) (hworker : f.worker = some path)
    (hpc : f.pc.onChain = false) (hpoor : balance < threshold) :
    MarkMove m job f (f.underfunded job path balance threshold error).1 reply
      (f.underfunded job path balance threshold error).2 := by
  refine .tooPoor path balance threshold error hpc hworker hpoor ?_
  show _ ++ f.releaseLease.2 = _
  rw [releaseLease_of_held hwf hheld hworker]
  rfl

/-- A build that failed for want of funds marks it too. -/
private theorem marks_buildFailed {path : String} {balance : Nat} {e : JsError} (hwf : f.Wf)
    (hheld : f.phase = .held) (hworker : f.worker = some path) (hpc : f.pc.onChain = false) :
    MarkMove m job f (resumeLeased.buildFailed job path f balance e).1 reply
      (resumeLeased.buildFailed job path f balance e).2 := by
  unfold resumeLeased.buildFailed
  split
  · exact tooPoor_underfunded hwf hheld hworker hpc (Nat.lt_succ_self balance)
  · exact marks_throws hpc rfl

end Ways

/-- From `leasing` on. -/
theorem resumeLeased_marks {s : Setup} {view : RunView} {job : Nat} {path : String} {f : Frame}
    {reply : Reply} {next : Frame × List Effect} (hwf : f.Wf) (hworker : f.worker = some path)
    (h : f.resumeLeased s view job path f.pc reply = some next) :
    MarkMove s.env.bidirectional.minBalanceWei job f next.1 reply next.2 := by
  generalize hpc : f.pc = pc at h
  have hf : f.phase = pc.stage.phase := by rw [phase, hpc]
  have hchain : f.pc.onChain = pc.onChain := by rw [hpc]
  cases resumeLeased_stretch h
  -- the preflight
  case poor hpoor => exact tooPoor_underfunded hwf hf hworker hchain hpoor
  case funded => exact marks_proceed hchain rfl rfl
  case balanceFailed => exact marks_throws hchain rfl
  -- the build
  case nonceRead => exact marks_await hchain rfl
  case nonceFailed => exact marks_buildFailed hwf hf hworker hchain
  case unaffordable hpoor => exact tooPoor_underfunded hwf hf hworker hchain hpoor
  case built => exact marks_proceed hchain rfl rfl
  case estimateFailed => exact marks_buildFailed hwf hf hworker hchain
  -- the Solana send
  case instructed => exact marks_await hchain rfl
  case uninstructed => exact marks_throws hchain rfl
  case requested => exact marks_await hchain rfl
  case unrequested => exact marks_throws hchain rfl
  -- the signature
  case signed => exact marks_await hchain rfl
  case unsigned => exact marks_returns hchain rfl
  case unattached => exact marks_throws hchain rfl
  case mismatched => exact marks_returns hchain rfl
  case verified => exact marks_await hchain rfl
  -- broadcast and confirmation
  case broadcast => exact .unmarked rfl fun _ => .inl ⟨rfl, rfl⟩
  case broadcastFailed built serialized e =>
    refine .gaveUp path built.nonce .broadcastFailed (.other e) hchain hworker (by simp) ?_
    show _ ++ f.releaseLease.2 = _
    rw [releaseLease_of_held hwf hf hworker]
    rfl
  case confirmed released effects hrel =>
    have hmarks : Unmarked effects := by
      have hrelease := unmarked_releaseLease f
      rwa [hrel] at hrelease
    refine .unmarked ?_ fun _ => .inr ⟨_, rfl⟩
    show Unmarked ([_] ++ effects)
    exact Unmarked.append rfl hmarks
  case reverted =>
    exact .unmarked (unmarked_finish rfl) fun _ => .inr ⟨_, rfl⟩
  case unconfirmed built hash e =>
    refine .gaveUp path built.nonce .confirmationTimeout (.other e) hchain hworker (by simp) ?_
    show _ ++ f.releaseLease.2 = _
    rw [releaseLease_of_held hwf hf hworker]
    rfl
  -- the respond
  case unexpected => exact marks_await hchain (unmarked_finish rfl)
  case responded => exact marks_await hchain (unmarked_finish rfl)
  case unresponded => exact marks_await hchain (unmarked_finish rfl)

/-- Whatever an `await` is answered, the job marks in one of the four places or not at all. -/
theorem resume_marks {s : Setup} {view : RunView} {job : Nat} {f : Frame} {reply : Reply}
    {next : Frame × List Effect} (hwf : f.Wf) (h : f.resume s view job reply = some next) :
    MarkMove s.env.bidirectional.minBalanceWei job f next.1 reply next.2 := by
  cases resume_stretch h
  -- `ensureAddresses`
  case underived hpc _ _ => exact marks_throws (by rw [hpc]; rfl) rfl
  case derived hpc _ => exact marks_await (by rw [hpc]; rfl) rfl
  -- `reconcileQuarantined`
  case counted path rest latest pending hpc =>
    exact .reconciled path rest latest pending hpc rfl rfl
  case uncounted hpc => exact marks_throws (by rw [hpc]; rfl) rfl
  case reconciled hpc => exact marks_await (by rw [hpc]; rfl) rfl
  -- `refreshUnderfunded`
  case refreshed path rest balance hpc => exact .refreshed path rest balance hpc rfl rfl
  case unrefreshed hpc => exact marks_throws (by rw [hpc]; rfl) rfl
  case asked hpc => exact marks_proceed (by rw [hpc]; rfl) rfl rfl
  -- `acquireWithin`
  case refused hpc error hset => exact marks_throws (by rw [hpc]; rfl) rfl
  case leased hpc path hset => exact marks_await (by rw [hpc]; rfl) rfl
  -- the `catch` of `start`
  case recorded hpc =>
    -- no class of error stands for want of funds
    refine marks_await (by rw [hpc]; rfl) ?_
    rename_i e
    cases e with
    | noWorkerAvailable reason => cases reason <;> rfl
    | _ => rfl
  case works h => exact resumeLeased_marks hwf ‹f.worker = some _› h

end Frame

namespace WorkerPool

variable {pool leased : WorkerPool} {path q : String} {now : Millis} {effects : List Effect}

/-! ## Quarantines -/

/-- The address of the path is held back until the chain has moved on. -/
def Quarantined (pool : WorkerPool) (path : String) : Prop :=
  ∃ w ∈ pool.standing, w.path = path ∧ w.pendingNonce.isSome = true

/-- A quarantine is part of the standing. -/
theorem Quarantined.congr {pool' : WorkerPool} (h : pool'.standing = pool.standing) :
    pool'.Quarantined path ↔ pool.Quarantined path := by
  rw [Quarantined, Quarantined, h]

/-- A quarantined path is not fit to be granted. -/
theorem Quarantined.not_fit (hnd : pool.paths.Nodup) (h : pool.Quarantined path) :
    ¬ pool.Fit path := by
  rintro ⟨w, hw, rfl, havailable⟩
  obtain ⟨w', hw', hpath, hsome⟩ := h
  have hkeys : (pool.standing.map Worker.path).Nodup := pool.standing_paths ▸ hnd
  -- one path has one worker, which cannot be both
  have hsame : w' = w := List.inj_on_of_nodup_map hkeys hw' hw hpath
  subst hsame
  simp only [Worker.available, Bool.and_eq_true, Option.isNone_iff_eq_none] at havailable
  rw [havailable.2] at hsome
  cases hsome

/-- Assigning to a worker keeps a quarantine that the assignment itself keeps. -/
theorem Quarantined.modifyWorker (hnd : pool.paths.Nodup) {f : Worker → Worker}
    (hf : ∀ w, (f w).unleased = f w.unleased) (h : pool.Quarantined q)
    (hkeep : ∀ w, w.path = path → q = path → w.pendingNonce.isSome = true →
      (f w).pendingNonce.isSome = true) (hpath : ∀ w, (f w).path = w.path) :
    (pool.modifyWorker path f).Quarantined q := by
  have hkeys : (pool.standing.map Worker.path).Nodup := pool.standing_paths ▸ hnd
  obtain ⟨w, hw, rfl, hsome⟩ := h
  rw [Quarantined, modifyWorker_standing pool path hf, List.modifyFirst_eq_map hkeys]
  refine ⟨_, List.mem_map_of_mem hw, ?_⟩
  split
  · -- this worker is the one assigned to, or another
    rename_i heq
    exact ⟨hpath w, hkeep w heq heq hsome⟩
  · exact ⟨rfl, hsome⟩

/-- A balance lifts no quarantine. -/
theorem Quarantined.setBalance (hnd : pool.paths.Nodup) (h : pool.Quarantined q)
    (path : String) (balanceWei minBalanceWei : Nat) :
    (pool.setBalance path balanceWei minBalanceWei).Quarantined q :=
  h.modifyWorker hnd (fun _ => rfl) (fun _ _ _ hsome => hsome) fun _ => rfl

/-- Nor does another quarantine. -/
theorem Quarantined.quarantine (hnd : pool.paths.Nodup) (h : pool.Quarantined q)
    (path : String) (nonce : Nat) : (pool.quarantine path nonce).Quarantined q :=
  h.modifyWorker hnd (fun _ => rfl) (fun _ _ _ _ => rfl) fun _ => rfl

/-- `reconcile` lifts at most the quarantine of its own path, and not while the counts say
    that a transaction is outstanding. -/
theorem Quarantined.reconcile (hnd : pool.paths.Nodup) (h : pool.Quarantined q)
    (path : String) {hasOutstanding : Bool} (hkeep : q = path → hasOutstanding = true) :
    (pool.reconcile path hasOutstanding).Quarantined q := by
  refine h.modifyWorker hnd (fun w => ?_) (fun w _ hq hsome => ?_) fun w => ?_
  · have hmark : (Effect.reconcile path hasOutstanding).mark = some (path, _) := rfl
    exact Effect.mark_unleased hmark w
  · simp [hkeep hq, hsome]
  · split <;> rfl

/-- `quarantine` holds back the path it names. -/
theorem quarantined_quarantine (hnd : pool.paths.Nodup) (hpath : path ∈ pool.paths)
    (nonce : Nat) : (pool.quarantine path nonce).Quarantined path := by
  have hkeys : (pool.standing.map Worker.path).Nodup := pool.standing_paths ▸ hnd
  rw [← pool.standing_paths] at hpath
  obtain ⟨w, hw, rfl⟩ := List.mem_map.mp hpath
  have hstanding : (pool.quarantine w.path nonce).standing =
      pool.standing.modifyFirst (fun v => v.path == w.path) fun v =>
        { v with pendingNonce := some nonce } :=
    modifyWorker_standing pool w.path fun _ => rfl
  rw [Quarantined, hstanding, List.modifyFirst_eq_map hkeys]
  refine ⟨_, List.mem_map_of_mem hw, ?_⟩
  rw [if_pos rfl]
  exact ⟨rfl, rfl⟩

/-! ## A leased worker is not quarantined -/

/-- Leased workers are not quarantined, one path aside. -/
def GuardedBut (pool : WorkerPool) (path : Option String) : Prop :=
  ∀ w ∈ pool.workers, w.busy = true → some w.path = path ∨ w.pendingNonce = none

/-- No leased worker is quarantined. -/
def Guarded (pool : WorkerPool) : Prop := pool.GuardedBut none

/-- A leased worker's path is not quarantined. -/
theorem Guarded.not_quarantined (h : pool.Guarded) (hnd : pool.paths.Nodup) {w : Worker}
    (hw : w ∈ pool.workers) (hbusy : w.busy = true) : ¬ pool.Quarantined w.path := by
  rintro ⟨v, hv, hpath, hsome⟩
  obtain ⟨u, hu, rfl⟩ := List.mem_map.mp hv
  have hsame : u = w := List.inj_on_of_nodup_map hnd hu hw hpath
  subst hsame
  have hnone : u.pendingNonce = none := by simpa using h u hu hbusy
  rw [show u.unleased.pendingNonce = u.pendingNonce from rfl, hnone] at hsome
  cases hsome

/-- Assigning to a worker keeps the guard that the assignment itself keeps. -/
theorem GuardedBut.modifyWorker {but : Option String} (h : pool.GuardedBut but)
    {f : Worker → Worker} (hf : ∀ w, w.path = path →
      (w.busy = true → some w.path = but ∨ w.pendingNonce = none) →
      (f w).busy = true → some (f w).path = but ∨ (f w).pendingNonce = none) :
    (pool.modifyWorker path f).GuardedBut but := by
  intro w hw
  rcases List.mem_modifyFirst hw with hw | ⟨v, hfind, rfl⟩
  · exact h w hw
  · have hpath : v.path = path := by simpa using List.find?_some hfind
    exact hf v hpath (h v (List.mem_of_find?_eq_some hfind))

/-- A worker leased is not a quarantined one. -/
theorem GuardedBut.acquire {but : Option String} (h : pool.GuardedBut but)
    (hok : pool.acquire now = .ok (path, leased)) : leased.GuardedBut but := by
  obtain ⟨candidate, _, _, rfl⟩ := acquire_ok hok
  intro w hw hbusy
  rcases List.mem_modifyFirst hw with hw | ⟨v, hfind, rfl⟩
  · exact h w hw hbusy
  · have havailable := List.find?_some hfind
    simp only [Worker.available, Bool.and_eq_true, Option.isNone_iff_eq_none] at havailable
    -- the one acquired was available, so it is not quarantined
    exact .inr havailable.2

/-- Nor is one handed to the queue. -/
theorem Guarded.handOff (h : pool.Guarded) (now : Millis) : (pool.handOff now).Guarded := by
  refine handOff_invariant Guarded pool now h ?_
  intro pool leased call rest path hguard _ hok
  have hleased : leased.Guarded := GuardedBut.acquire hguard hok
  exact hleased

/-- Releasing the one path that was exempt. -/
theorem GuardedBut.release (hnd : pool.paths.Nodup) (h : pool.GuardedBut (some path))
    (now : Millis) : (pool.release path now).Guarded := by
  refine Guarded.handOff ?_ now
  intro w hw hbusy
  rw [WorkerPool.modifyWorker, List.modifyFirst_eq_map hnd] at hw
  obtain ⟨v, hv, rfl⟩ := List.mem_map.mp hw
  split at hbusy
  · cases hbusy
  · rename_i hne
    rw [if_neg hne]
    -- the exempt worker is not busy any more
    rcases h v hv hbusy with heq | hnone
    · exact absurd (Option.some.inj heq) hne
    · exact .inr hnone

/-- Without an exception it holds with any. -/
theorem Guarded.but (h : pool.Guarded) (but : Option String) : pool.GuardedBut but :=
  fun w hw hbusy => .inr (by simpa using h w hw hbusy)

/-- Leased at once or later, it is not quarantined. -/
theorem Guarded.acquireWithin (h : pool.Guarded) (call : Nat) (now : Millis) :
    (pool.acquireWithin call now).Guarded := by
  unfold WorkerPool.acquireWithin
  split
  · rename_i leased hok
    have hleased : leased.Guarded := GuardedBut.acquire h hok
    exact hleased
  · exact h
  · exact h

/-- A call that is no `quarantine` keeps the guard. -/
theorem Guarded.onPool (h : pool.Guarded) (hnd : pool.paths.Nodup) {effect : Effect}
    (hquiet : ∀ path nonce, effect ≠ .quarantine path nonce) (now : Millis) :
    (effect.onPool now pool).Guarded := by
  cases effect with
  | acquireWithin job => exact h.acquireWithin job now
  | setBalance path _ _ => exact h.modifyWorker fun _ _ hw => hw
  | quarantine path nonce => exact absurd rfl (hquiet path nonce)
  | reconcile path hasOutstanding =>
    refine h.modifyWorker fun w _ hw => ?_
    split
    · -- the quarantine is lifted
      exact fun _ => .inr rfl
    · exact hw
  | release path => exact (h.but _).release hnd now
  | update _ _ => exact h
  | fail _ _ _ => exact h
  | began _ _ => exact h

/-- No call adds or removes a worker. -/
theorem onPool_paths (effect : Effect) (now : Millis) (pool : WorkerPool) :
    (effect.onPool now pool).paths = pool.paths := by
  rw [← book_paths, onPool_book, book_paths]

/-- Calls of which none is a `quarantine` keep the guard. -/
theorem Guarded.onPools (h : pool.Guarded) (hnd : pool.paths.Nodup)
    (hquiet : ∀ effect ∈ effects, ∀ path nonce, effect ≠ .quarantine path nonce) (now : Millis) :
    (effects.foldl (fun pool effect => effect.onPool now pool) pool).Guarded := by
  induction effects generalizing pool with
  | nil => exact h
  | cons effect rest ih =>
    have hfirst := h.onPool hnd (hquiet effect List.mem_cons_self) now
    rw [← onPool_paths effect now pool] at hnd
    exact ih hfirst hnd fun e he => hquiet e (List.mem_cons_of_mem _ he)

/-- A job that gives up on its transaction quarantines its worker before it releases it. -/
theorem Guarded.gaveUp (h : pool.Guarded) (hnd : pool.paths.Nodup) (path : String) (nonce : Nat)
    (now : Millis) : ((pool.quarantine path nonce).release path now).Guarded := by
  -- in between, the one quarantined is still leased
  have hexempt : (pool.quarantine path nonce).GuardedBut (some path) :=
    (h.but _).modifyWorker fun w hpath _ _ => .inl (congrArg some hpath)
  have hpaths : (pool.quarantine path nonce).paths = pool.paths := by
    refine List.map_modifyFirst (fun w => ?_) pool.workers
    rfl
  exact hexempt.release (hpaths ▸ hnd) now

end WorkerPool

end ContractPinger
