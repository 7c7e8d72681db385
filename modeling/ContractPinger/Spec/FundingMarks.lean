import ContractPinger.Spec.PoolSteps
import ContractPinger.Spec.Promises
import ContractPinger.Spec.WaitReasons

/-!
# Where a mark for want of funds comes from

A worker is marked underfunded by a `setBalance` that finds its address below a threshold: the
floor, what the job at hand costs, or one wei more than the address holds when the node has
refused an estimate.

## Key results

- `resume_shorts`: the readings and refusals a job marks a worker by
- `resume_reading`: the balance a job goes by is one it has been answered
- `marked_step`: a step marks a worker by one of these, or not at all
-/

namespace ContractPinger

namespace WorkerPool

variable {pool pool' : WorkerPool} {path q : String} {now : Millis} {effects : List Effect}

/-- The worker of the path is marked underfunded. -/
def Marked (pool : WorkerPool) (path : String) : Prop :=
  ∃ w ∈ pool.standing, w.path = path ∧ w.underfunded = true

/-- The mark is part of the standing. -/
theorem Marked.congr (h : pool'.standing = pool.standing) :
    pool'.Marked path ↔ pool.Marked path := by
  rw [Marked, Marked, h]

/-- Nobody is marked at the start. -/
theorem not_marked_new (paths : List String) (path : String) : ¬ (new paths).Marked path := by
  rintro ⟨w, hw, _, hmark⟩
  obtain ⟨v, hv, rfl⟩ := List.mem_map.mp hw
  obtain ⟨p, _, rfl⟩ := List.mem_map.mp hv
  cases hmark

/-- An assignment to a worker marks it, or nobody. -/
theorem Marked.of_modifyWorker {f : Worker → Worker} (h : (pool.modifyWorker q f).Marked path)
    (hf : ∀ w, (f w).unleased = f w.unleased) (hpath : ∀ w, (f w).path = w.path) :
    pool.Marked path ∨ path = q ∧ ∃ w, w.underfunded = false ∧ (f w).underfunded = true := by
  obtain ⟨w, hw, rfl, hmark⟩ := h
  rw [modifyWorker_standing pool q hf] at hw
  rcases List.mem_modifyFirst hw with hold | ⟨v, hfind, rfl⟩
  · exact .inl ⟨w, hold, rfl, hmark⟩
  · have hmem := List.mem_of_find?_eq_some hfind
    have hq : v.path = q := by simpa using List.find?_some hfind
    cases hbefore : v.underfunded with
    | true => exact .inl ⟨v, hmem, (hpath v).symm, hbefore⟩
    | false => exact .inr ⟨(hpath v).trans hq, v, hbefore, hmark⟩

/-- What keeps the mark of every worker marks none. -/
private theorem not_marks {f : Worker → Worker} (hf : ∀ w, (f w).underfunded = w.underfunded) :
    ¬ ∃ w, w.underfunded = false ∧ (f w).underfunded = true := by
  rintro ⟨w, hclear, hmark⟩
  rw [hf, hclear] at hmark
  cases hmark

/-- A call marks a worker by finding its balance below the threshold, or not at all. -/
theorem Marked.of_onPool {effect : Effect} (h : (effect.onPool now pool).Marked path) :
    pool.Marked path ∨
      ∃ balance threshold, effect = .setBalance path balance threshold ∧ balance < threshold := by
  cases effect with
  | acquireWithin job => exact .inl ((Marked.congr (LeasesOnly.acquireWithin _ _ _).standing).mp h)
  | release p => exact .inl ((Marked.congr (LeasesOnly.release _ _ _).standing).mp h)
  | setBalance p balance threshold =>
    have hset : (pool.setBalance p balance threshold).Marked path := h
    rw [setBalance] at hset
    rcases hset.of_modifyWorker (fun _ => rfl) (fun _ => rfl) with hold | ⟨rfl, _, _, hmark⟩
    · exact .inl hold
    · exact .inr ⟨balance, threshold, rfl, of_decide_eq_true hmark⟩
  | quarantine p nonce =>
    have hset : (pool.quarantine p nonce).Marked path := h
    rw [quarantine] at hset
    exact (hset.of_modifyWorker (fun _ => rfl) (fun _ => rfl)).imp_right
      fun hnew => absurd hnew.2 (not_marks fun _ => rfl)
  | reconcile p hasOutstanding =>
    have hset : (pool.reconcile p hasOutstanding).Marked path := h
    rw [reconcile] at hset
    -- lifting a quarantine says nothing of the funds
    refine (hset.of_modifyWorker (fun w => ?_) (fun w => ?_)).imp_right
      fun hnew => absurd hnew.2 (not_marks fun w => ?_)
    · have hmark : (Effect.reconcile p hasOutstanding).mark = some (p, _) := rfl
      exact Effect.mark_unleased hmark w
    · split <;> rfl
    · split <;> rfl
  | update _ _ => exact .inl h
  | fail _ _ _ => exact .inl h
  | began _ _ => exact .inl h

/-- Likewise the calls of one stretch of code. -/
theorem Marked.of_onPools
    (h : (effects.foldl (fun pool effect => effect.onPool now pool) pool).Marked path) :
    pool.Marked path ∨
      ∃ balance threshold, .setBalance path balance threshold ∈ effects ∧ balance < threshold := by
  induction effects generalizing pool with
  | nil => exact .inl h
  | cons effect rest ih =>
    rcases ih h with hfirst | ⟨balance, threshold, hmem, hlt⟩
    · rcases Marked.of_onPool hfirst with hold | ⟨balance, threshold, rfl, hlt⟩
      · exact .inl hold
      · exact .inr ⟨balance, threshold, List.mem_cons_self, hlt⟩
    · exact .inr ⟨balance, threshold, List.mem_cons_of_mem _ hmem, hlt⟩

/-- Applying derived addresses marks nobody. -/
theorem Marked.of_applyAddresses {derived : List DerivedWorker}
    (h : (World.applyAddresses pool derived).Marked path) : pool.Marked path := by
  revert h
  refine World.applyAddresses_invariant (fun after => after.Marked path → pool.Marked path)
    pool derived id ?_
  intro before p address hbefore hafter
  rw [setAddress] at hafter
  rcases hafter.of_modifyWorker (fun _ => rfl) (fun _ => rfl) with hold | ⟨_, hnew⟩
  · exact hbefore hold
  · exact absurd hnew (not_marks fun _ => rfl)

/-- `all_underfunded` is said of a pool whose every worker is marked. -/
theorem Marked.of_allUnderfunded (h : pool.acquire now = .error .allUnderfunded)
    (hpath : path ∈ pool.paths) : pool.Marked path := by
  obtain ⟨w, hw, rfl⟩ := List.mem_map.mp hpath
  have hall : ∀ w ∈ pool.workers, w.underfunded = true := acquire_justified h
  exact ⟨w.unleased, List.mem_map_of_mem hw, rfl, hall w hw⟩

end WorkerPool

/-! ## What a job marks a worker by -/

/-- The balance a job has read and goes by. -/
def Pc.reading : Pc → Option Nat
  | .readingNonce balance => some balance
  | .estimatingGas balance _ _ => some balance
  | _ => none

namespace Frame

/-- The answer with which a job sets the balance of the path, and the threshold it holds it
    against. -/
inductive Shorts (s : Setup) (pool : WorkerPool) (f : Frame) (path : String) (balance : Nat) :
    Reply → Nat → Prop
  | refreshed (rest : List String) (pc : f.pc = .refreshingUnderfunded (path :: rest)) :
      Shorts s pool f path balance (.balance balance) s.env.bidirectional.minBalanceWei
  | preflight (pc : f.pc = .readingBalance) (worker : f.worker = some path) :
      Shorts s pool f path balance (.balance balance) s.env.bidirectional.minBalanceWei
  | estimated (nonce : Nat) (fees : Fees) (estimate : Nat)
      (pc : f.pc = .estimatingGas balance nonce fees) (worker : f.worker = some path) :
      Shorts s pool f path balance (.gas estimate)
        (assembleTransaction s.libs s.environment f.mode (pool.address path)
          (s.env.bidirectional.erc20Address.getD s.environment.erc20) nonce fees
          estimate).gasCostWei
  | refused (e : JsError) (pc : f.pc.reading = some balance) (worker : f.worker = some path)
      (mentions : mentionsInsufficientFunds e.toString = true) :
      Shorts s pool f path balance (.throw e) (balance + 1)

section Ways

variable {f : Frame} {pc : Pc} {effects : List Effect} {path p : String} {balance threshold : Nat}

/-- The `finally` block sets no balance. -/
theorem setBalance_mem_finish (h : .setBalance path balance threshold ∈ (f.finish pc effects).2) :
    .setBalance path balance threshold ∈ effects :=
  (mem_finish h).resolve_right (by simp)

/-- The preflight marks the job's own worker, against its own threshold. -/
theorem setBalance_mem_underfunded {job b t : Nat} {error : JobError}
    (h : .setBalance path balance threshold ∈ (f.underfunded job p b t error).2) :
    path = p ∧ balance = b ∧ threshold = t := by
  simpa using setBalance_mem_finish h

/-- A build that failed for want of funds marks it against one wei more than it holds. -/
theorem setBalance_mem_buildFailed {job b : Nat} {e : JsError}
    (h : .setBalance path balance threshold ∈ (resumeLeased.buildFailed job p f b e).2) :
    mentionsInsufficientFunds e.toString = true ∧ path = p ∧ balance = b ∧ threshold = b + 1 := by
  unfold resumeLeased.buildFailed at h
  split at h
  · rename_i hmentions
    exact ⟨hmentions, setBalance_mem_underfunded h⟩
  · exact absurd (setBalance_mem_finish h) (by simp)

end Ways

variable {s : Setup} {view : RunView} {job : Nat} {f : Frame} {reply : Reply}
  {next : Frame × List Effect} {path : String} {balance threshold : Nat}

/-- From `leasing` on. -/
theorem resumeLeased_shorts {p : String} (hworker : f.worker = some p)
    (h : f.resumeLeased s view job p f.pc reply = some next)
    (hset : .setBalance path balance threshold ∈ next.2) :
    f.Shorts s view.pool path balance reply threshold := by
  generalize hpc : f.pc = pc at h
  cases resumeLeased_stretch h
  -- the preflight finds the balance below the floor
  case poor b hpoor =>
    obtain ⟨rfl, rfl, rfl⟩ := setBalance_mem_underfunded hset
    exact .preflight hpc hworker
  case funded => exact absurd (mem_proceed hset) (by simp)
  -- the node refuses an estimate, or the cost is above the balance
  case nonceFailed b e =>
    obtain ⟨hmentions, rfl, rfl, rfl⟩ := setBalance_mem_buildFailed hset
    exact .refused e (by rw [hpc]; rfl) hworker hmentions
  case unaffordable b nonce fees estimate hpoor =>
    obtain ⟨rfl, rfl, rfl⟩ := setBalance_mem_underfunded hset
    exact .estimated nonce fees estimate hpc hworker
  case built => exact absurd (mem_proceed hset) (by simp)
  case estimateFailed b nonce fees e =>
    obtain ⟨hmentions, rfl, rfl, rfl⟩ := setBalance_mem_buildFailed hset
    exact .refused e (by rw [hpc]; rfl) hworker hmentions
  -- after the build, no balance is set any more
  case confirmed released effects hrel =>
    have hmem : .setBalance path balance threshold ∈ f.releaseLease.2 := by simpa [hrel] using hset
    exact absurd (mem_releaseLease hmem) (by simp)
  all_goals
    first
      | exact absurd (setBalance_mem_finish hset) (by simp)
      | simp [await] at hset

/-- A job sets a balance by what it has just been answered. -/
theorem resume_shorts (h : f.resume s view job reply = some next)
    (hset : .setBalance path balance threshold ∈ next.2) :
    f.Shorts s view.pool path balance reply threshold := by
  cases resume_stretch h
  -- `refreshUnderfunded`
  case refreshed p rest b hpc =>
    obtain ⟨rfl, rfl, rfl⟩ : path = p ∧ balance = b ∧
        threshold = s.env.bidirectional.minBalanceWei := by simpa [await] using hset
    exact .refreshed rest hpc
  case asked => exact absurd (mem_proceed hset) (by simp)
  case works h => exact resumeLeased_shorts ‹f.worker = some _› h hset
  all_goals
    first
      | exact absurd (setBalance_mem_finish hset) (by simp)
      | simp [await] at hset

/-- From `leasing` on. -/
theorem resumeLeased_reading {p : String} {pc : Pc}
    (h : f.resumeLeased s view job p pc reply = some next)
    (hreading : next.1.pc.reading = some balance) :
    pc.reading = some balance ∨ pc = .readingBalance ∧ reply = .balance balance := by
  cases resumeLeased_stretch h
  -- the preflight has read it
  case funded b _ =>
    unfold proceed at hreading
    split at hreading
    · cases hreading
    · cases hreading
      exact .inr ⟨rfl, rfl⟩
  -- the build goes by what the preflight has read
  case nonceRead => exact .inl hreading
  case nonceFailed =>
    unfold resumeLeased.buildFailed at hreading
    split at hreading <;> cases hreading
  case built =>
    unfold proceed at hreading
    split at hreading <;> cases hreading
  case estimateFailed =>
    unfold resumeLeased.buildFailed at hreading
    split at hreading <;> cases hreading
  all_goals cases hreading

/-- The balance a job goes by is the one its preflight was answered. -/
theorem resume_reading (h : f.resume s view job reply = some next)
    (hreading : next.1.pc.reading = some balance) :
    f.pc.reading = some balance ∨ f.pc = .readingBalance ∧ reply = .balance balance := by
  cases resume_stretch h
  case asked =>
    unfold proceed at hreading
    split at hreading <;> cases hreading
  case works h => exact resumeLeased_reading h hreading
  all_goals cases hreading

/-- A job that goes by a balance has had its worker since before it read it. -/
theorem resume_reading_worker (h : f.resume s view job reply = some next)
    (hreading : next.1.pc.reading = some balance) : next.1.worker = f.worker := by
  rcases resume_worker h with ⟨hkept, _⟩ | ⟨_, hpc, _⟩
  · exact hkept
  · -- at `acquireWithin` nothing has been read
    rcases resume_reading h hreading with hbefore | ⟨hbefore, _⟩
    · rw [hpc] at hbefore
      cases hbefore
    · rw [hpc] at hbefore
      cases hbefore

end Frame

/-! ## What a step marks a worker by -/

namespace World

/-- A step marks a worker by an answer to a job or to a request, or not at all. -/
theorem marked_step {s : Setup} {w w' : World} {a : Action} {path : String}
    (hleases : w.LeaseInv) (hstep : step s w a = some w') (h : w'.pool.Marked path) :
    w.pool.Marked path ∨
      (∃ job reply f balance threshold, a = .resume job reply ∧ w.frames[job]? = some f ∧
        f.Shorts s w.pool path balance reply threshold ∧ balance < threshold) ∨
      ∃ request rest balance, a = .resumeRequest request (.balance balance) ∧
        w.requests[request]? = some (.refreshing (path :: rest)) ∧
        balance < s.env.bidirectional.minBalanceWei := by
  cases step_pool hleases hstep with
  | same _ hworkers _ =>
    refine .inl ((WorkerPool.Marked.congr ?_).mp h)
    rw [WorkerPool.standing, hworkers, WorkerPool.standing]
  | derived _ derived hpool _ =>
    rw [hpool] at h
    exact .inl h.of_applyAddresses
  | job job reply _ _ _ _ _ _ _ _ =>
    obtain ⟨f, f', effects, hf, hresume, rfl⟩ := step_resume hstep
    rw [performAll_pool] at h
    -- the mark is new: one of the job's calls has set it
    refine h.of_onPools.imp_right fun hset => .inl ?_
    obtain ⟨balance, threshold, hmem, hlt⟩ := hset
    exact ⟨job, reply, f, balance, threshold, rfl, hf, Frame.resume_shorts hresume hmem, hlt⟩
  | request request reply pc effects hpc hmoves hpool _ =>
    rw [hpool] at h
    refine h.of_onPools.imp_right fun hset => .inr ?_
    obtain ⟨balance, threshold, hmem, hlt⟩ := hset
    -- of a request's calls only the refresh sets marks
    cases hmoves with
    | silent => cases hmem
    | reconciled => simp at hmem
    | refreshed p rest b hstands hread =>
      obtain ⟨rfl, rfl, rfl⟩ : path = p ∧ balance = b ∧
          threshold = s.env.bidirectional.minBalanceWei := by simpa using hmem
      exact ⟨request, rest, balance, by rw [hread], by rw [hpc, hstands], hlt⟩

end World

end ContractPinger
