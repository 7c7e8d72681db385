import ContractPinger.ForStd.Machine
import ContractPinger.Model.World
import ContractPinger.Spec.Stretches

/-!
# What a step of the service does

Frame lemmas for the calls one stretch of code makes, and one inversion lemma for each
action that resumes something, so that the invariants of the service never unfold
`World.step`.

## Key results

- `performAll_pool` / `performAll_jobs`: a stretch of code changes the pool and the job
  store by its calls, in order
- `performAll_calls`: the history records exactly the calls made
- `step_resume` / `step_resumeRequest` / `step_resumeDerivation`: what resuming does
- `resumeRequest_move`: the calls `GET /workers` makes
-/

namespace ContractPinger

open Machine

/-- The call an event records. -/
def Event.call? : Event → Option (Proc × Effect)
  | .called who effect => some (who, effect)
  | _ => none

/-- The acceptance an event records. -/
def Event.start? : Event → Option (Nat × Millis)
  | .started job time => some (job, time)
  | _ => none

namespace World

/-- The calls made on the shared objects so far. -/
def calls (w : World) : List (Proc × Effect) := w.history.filterMap Event.call?

/-- The jobs accepted so far, with the instants they were accepted at. -/
def starts (w : World) : List (Nat × Millis) := w.history.filterMap Event.start?

/-! ## Fields that stay -/

section SetPool

variable (w : World) (pool : WorkerPool)

@[simp] theorem setPool_pool : (w.setPool pool).pool = pool := rfl

@[simp] theorem setPool_jobs : (w.setPool pool).jobs = w.jobs := rfl

@[simp] theorem setPool_limiter : (w.setPool pool).limiter = w.limiter := rfl

@[simp] theorem setPool_frames : (w.setPool pool).frames = w.frames := rfl

@[simp] theorem setPool_requests : (w.setPool pool).requests = w.requests := rfl

@[simp] theorem setPool_derivations : (w.setPool pool).derivations = w.derivations := rfl

@[simp] theorem setPool_addressesReady :
    (w.setPool pool).addressesReady = w.addressesReady := rfl

@[simp] theorem setPool_now : (w.setPool pool).now = w.now := rfl

@[simp] theorem setPool_history :
    (w.setPool pool).history = w.history ++
      (pool.settled.drop w.pool.settled.length).map fun entry => .settled entry.1 entry.2 := rfl

/-- An observation blind to settlements does not see `setPool`. -/
private theorem filterMap_setPool_history {β : Type*} (observe : Event → Option β)
    (hblind : ∀ call outcome, observe (.settled call outcome) = none) :
    (w.setPool pool).history.filterMap observe = w.history.filterMap observe := by
  -- everything `setPool` adds is a settlement
  have hnone : ((pool.settled.drop w.pool.settled.length).map fun entry =>
      Event.settled entry.1 entry.2).filterMap observe = [] := by
    rw [List.filterMap_eq_nil_iff]
    intro event hevent
    obtain ⟨entry, _, rfl⟩ := List.mem_map.mp hevent
    exact hblind entry.1 entry.2
  rw [setPool_history, List.filterMap_append, hnone, List.append_nil]

@[simp] theorem setPool_calls : (w.setPool pool).calls = w.calls :=
  filterMap_setPool_history w pool Event.call? fun _ _ => rfl

@[simp] theorem setPool_starts : (w.setPool pool).starts = w.starts :=
  filterMap_setPool_history w pool Event.start? fun _ _ => rfl

end SetPool

section PerformAll

variable (w : World) (who : Proc)

@[simp] theorem performAll_nil : w.performAll who [] = w := rfl

/-- Calls are made one after another. -/
theorem performAll_cons (effect : Effect) (effects : List Effect) :
    w.performAll who (effect :: effects) = (w.perform who effect).performAll who effects := rfl

@[simp] theorem perform_pool (effect : Effect) :
    (w.perform who effect).pool = effect.onPool w.now w.pool := rfl

@[simp] theorem perform_jobs (effect : Effect) :
    (w.perform who effect).jobs = effect.onJobs w.now w.jobs := rfl

@[simp] theorem perform_now (effect : Effect) : (w.perform who effect).now = w.now := rfl

@[simp] theorem perform_calls (effect : Effect) :
    (w.perform who effect).calls = w.calls ++ [(who, effect)] := by
  rw [perform, setPool_calls]
  simp [calls, Event.call?]

/-- A field that no call changes stays through a whole stretch of code. -/
private theorem performAll_field {α : Type*} (field : World → α)
    (h : ∀ (w : World) (effect : Effect), field (w.perform who effect) = field w)
    (effects : List Effect) : field (w.performAll who effects) = field w := by
  induction effects generalizing w with
  | nil => rfl
  | cons effect rest ih =>
    rw [performAll_cons, ih (w.perform who effect), h w effect]

@[simp] theorem performAll_frames (effects : List Effect) :
    (w.performAll who effects).frames = w.frames :=
  performAll_field w who World.frames (fun _ _ => rfl) effects

@[simp] theorem performAll_requests (effects : List Effect) :
    (w.performAll who effects).requests = w.requests :=
  performAll_field w who World.requests (fun _ _ => rfl) effects

@[simp] theorem performAll_derivations (effects : List Effect) :
    (w.performAll who effects).derivations = w.derivations :=
  performAll_field w who World.derivations (fun _ _ => rfl) effects

@[simp] theorem performAll_addressesReady (effects : List Effect) :
    (w.performAll who effects).addressesReady = w.addressesReady :=
  performAll_field w who World.addressesReady (fun _ _ => rfl) effects

@[simp] theorem performAll_limiter (effects : List Effect) :
    (w.performAll who effects).limiter = w.limiter :=
  performAll_field w who World.limiter (fun _ _ => rfl) effects

@[simp] theorem performAll_starts (effects : List Effect) :
    (w.performAll who effects).starts = w.starts := by
  refine performAll_field w who World.starts (fun w effect => ?_) effects
  rw [perform, setPool_starts]
  simp [starts, Event.start?]

@[simp] theorem performAll_now (effects : List Effect) :
    (w.performAll who effects).now = w.now :=
  performAll_field w who World.now (fun _ _ => rfl) effects

/-- The pool after a stretch of code. -/
theorem performAll_pool (effects : List Effect) :
    (w.performAll who effects).pool =
      effects.foldl (fun pool effect => effect.onPool w.now pool) w.pool := by
  induction effects generalizing w with
  | nil => rfl
  | cons effect rest ih => rw [performAll_cons, ih]; rfl

/-- The job store after a stretch of code. -/
theorem performAll_jobs (effects : List Effect) :
    (w.performAll who effects).jobs =
      effects.foldl (fun jobs effect => effect.onJobs w.now jobs) w.jobs := by
  induction effects generalizing w with
  | nil => rfl
  | cons effect rest ih => rw [performAll_cons, ih]; rfl

/-- A stretch of code adds its calls to the history, in order. -/
@[simp] theorem performAll_calls (effects : List Effect) :
    (w.performAll who effects).calls = w.calls ++ effects.map fun effect => (who, effect) := by
  induction effects generalizing w with
  | nil => simp
  | cons effect rest ih => simp [performAll_cons, ih]

end PerformAll

/-! ## Joining the memoized derivation -/

section EnsureAddresses

variable (w : World) (s : Setup)

/-- `ensureAddresses` touches nothing but the derivations. -/
theorem ensureAddresses_eq : ∃ derivations addressesReady,
    (w.ensureAddresses s).1 = { w with derivations, addressesReady } := by
  unfold ensureAddresses
  split
  · exact ⟨w.derivations, w.addressesReady, rfl⟩
  · exact ⟨_, _, rfl⟩

@[simp] theorem ensureAddresses_pool : (w.ensureAddresses s).1.pool = w.pool := by
  obtain ⟨_, _, h⟩ := ensureAddresses_eq w s
  rw [h]

@[simp] theorem ensureAddresses_jobs : (w.ensureAddresses s).1.jobs = w.jobs := by
  obtain ⟨_, _, h⟩ := ensureAddresses_eq w s
  rw [h]

@[simp] theorem ensureAddresses_limiter : (w.ensureAddresses s).1.limiter = w.limiter := by
  obtain ⟨_, _, h⟩ := ensureAddresses_eq w s
  rw [h]

@[simp] theorem ensureAddresses_frames : (w.ensureAddresses s).1.frames = w.frames := by
  obtain ⟨_, _, h⟩ := ensureAddresses_eq w s
  rw [h]

@[simp] theorem ensureAddresses_requests : (w.ensureAddresses s).1.requests = w.requests := by
  obtain ⟨_, _, h⟩ := ensureAddresses_eq w s
  rw [h]

@[simp] theorem ensureAddresses_now : (w.ensureAddresses s).1.now = w.now := by
  obtain ⟨_, _, h⟩ := ensureAddresses_eq w s
  rw [h]

@[simp] theorem ensureAddresses_history : (w.ensureAddresses s).1.history = w.history := by
  obtain ⟨_, _, h⟩ := ensureAddresses_eq w s
  rw [h]

end EnsureAddresses

/-- `start` adds a record and a frame, suspended on the derivation or rejected at once. -/
theorem start_eq (w : World) (s : Setup) (mode : TxMode) :
    ∃ (frame : Frame) (derivations : List Derivation) (addressesReady : Option Nat),
      w.start s mode =
        { w with
          jobs := w.jobs.create w.frames.length s.environment mode w.now
          history := w.history ++ [.started w.frames.length w.now]
          frames := w.frames ++ [frame]
          derivations, addressesReady } ∧
      frame.worker = none ∧ frame.leaseReleased = false ∧
      ((∃ d, frame.pc = .ensuringAddresses d) ∨ ∃ e, frame.pc = .rejected e) := by
  unfold start
  dsimp only
  split
  · -- `solana()` threw: the job is rejected without an `await`
    exact ⟨_, _, _, rfl, rfl, rfl, .inr ⟨_, rfl⟩⟩
  · -- otherwise it joins the derivation or starts one
    rename_i solana _
    obtain ⟨derivations, addressesReady, hjoin⟩ := ensureAddresses_eq
      { w with
        jobs := w.jobs.create w.frames.length s.environment mode w.now
        history := w.history ++ [.started w.frames.length w.now] } s
    rw [hjoin]
    exact ⟨_, derivations, addressesReady, rfl, rfl, rfl, .inl ⟨_, rfl⟩⟩

section Start

variable (w : World) (s : Setup) (mode : TxMode)

@[simp] theorem start_pool : (w.start s mode).pool = w.pool := by
  obtain ⟨_, _, _, h, _⟩ := start_eq w s mode
  rw [h]

@[simp] theorem start_limiter : (w.start s mode).limiter = w.limiter := by
  obtain ⟨_, _, _, h, _⟩ := start_eq w s mode
  rw [h]

@[simp] theorem start_jobs :
    (w.start s mode).jobs = w.jobs.create w.frames.length s.environment mode w.now := by
  obtain ⟨_, _, _, h, _⟩ := start_eq w s mode
  rw [h]

@[simp] theorem start_requests : (w.start s mode).requests = w.requests := by
  obtain ⟨_, _, _, h, _⟩ := start_eq w s mode
  rw [h]

@[simp] theorem start_now : (w.start s mode).now = w.now := by
  obtain ⟨_, _, _, h, _⟩ := start_eq w s mode
  rw [h]

@[simp] theorem start_calls : (w.start s mode).calls = w.calls := by
  obtain ⟨_, _, _, h, _⟩ := start_eq w s mode
  rw [h, calls, List.filterMap_append]
  exact List.append_nil _

@[simp] theorem start_starts :
    (w.start s mode).starts = w.starts ++ [(w.frames.length, w.now)] := by
  obtain ⟨_, _, _, h, _⟩ := start_eq w s mode
  rw [h, starts, List.filterMap_append]
  rfl

/-- The frame of the job `start` accepts. -/
theorem start_frames : ∃ frame : Frame, (w.start s mode).frames = w.frames ++ [frame] ∧
    frame.worker = none ∧ frame.leaseReleased = false ∧
    ((∃ d, frame.pc = .ensuringAddresses d) ∨ ∃ e, frame.pc = .rejected e) := by
  obtain ⟨frame, _, _, h, hframe⟩ := start_eq w s mode
  exact ⟨frame, by rw [h], hframe⟩

end Start

section AbortActiveJobs

variable (w : World)

@[simp] theorem abortActiveJobs_pool : w.abortActiveJobs.pool =
    w.pool.rejectWaiters (.other { message := "Process is shutting down" }) := rfl

@[simp] theorem abortActiveJobs_jobs : w.abortActiveJobs.jobs = w.jobs := rfl

@[simp] theorem abortActiveJobs_requests : w.abortActiveJobs.requests = w.requests := rfl

@[simp] theorem abortActiveJobs_now : w.abortActiveJobs.now = w.now := rfl

@[simp] theorem abortActiveJobs_calls : w.abortActiveJobs.calls = w.calls := by
  rw [abortActiveJobs, setPool_calls, calls, List.filterMap_append]
  exact List.append_nil _

@[simp] theorem abortActiveJobs_starts : w.abortActiveJobs.starts = w.starts := by
  rw [abortActiveJobs, setPool_starts, starts, List.filterMap_append]
  exact List.append_nil _

/-- Aborting moves no job by itself. -/
theorem abortActiveJobs_map {α : Type*} (g : Frame → α)
    (hg : ∀ f : Frame, g { f.abort abortError with listed := false } = g f) :
    w.abortActiveJobs.frames.map g = w.frames.map g := by
  show (w.frames.map fun f => if f.listed then { f.abort abortError with listed := false }
    else f).map g = _
  rw [List.map_map]
  refine List.map_congr_left fun f _ => ?_
  show g (if f.listed then { f.abort abortError with listed := false } else f) = g f
  split
  · -- listed: aborted and taken off the list
    exact hg f
  · rfl

end AbortActiveJobs

/-! ## Inversion of the resuming steps -/

/-- Resuming a job runs its frame from one `await` to the next. -/
theorem step_resume {s : Setup} {w w' : World} {job : Nat} {reply : Reply}
    (h : step s w (.resume job reply) = some w') :
    ∃ f f' effects, w.frames[job]? = some f ∧
      f.resume s w.view job reply = some (f', effects) ∧
      w' = { w with frames := w.frames.set job f' }.performAll (.job job) effects := by
  simp only [step, Option.bind_eq_some_iff, Option.map_eq_some_iff] at h
  obtain ⟨f, hf, ⟨f', effects⟩, hresume, rfl⟩ := h
  exact ⟨f, f', effects, hf, hresume, rfl⟩

/-- Resuming a request likewise. -/
theorem step_resumeRequest {s : Setup} {w w' : World} {request : Nat} {reply : Reply}
    (h : step s w (.resumeRequest request reply) = some w') :
    ∃ pc pc' effects, w.requests[request]? = some pc ∧
      w.resumeRequest s pc reply = some (pc', effects) ∧
      w' = { w with requests := w.requests.set request pc' }.performAll
        (.request request) effects := by
  simp only [step, Option.bind_eq_some_iff, Option.map_eq_some_iff] at h
  obtain ⟨pc, hpc, ⟨pc', effects⟩, hresume, rfl⟩ := h
  exact ⟨pc, pc', effects, hpc, hresume, rfl⟩

/-- The calls a request makes from one `await` to the next. -/
inductive RequestMove (s : Setup) (pc : RequestPc) (reply : Reply) : List Effect → Prop
  | silent : RequestMove s pc reply []
  | refreshed (path : String) (rest : List String) (balance : Nat)
      (stands : pc = .refreshing (path :: rest)) (read : reply = .balance balance) :
      RequestMove s pc reply [.setBalance path balance s.env.bidirectional.minBalanceWei]
  | reconciled (path : String) (rest : List String) (latest pending : Nat)
      (stands : pc = .reconciling (path :: rest)) (counts : reply = .counts latest pending) :
      RequestMove s pc reply [.reconcile path (decide (latest < pending))]

/-- A request refreshes a balance, reconciles a quarantine, or makes no call. -/
theorem resumeRequest_move {s : Setup} {w : World} {pc pc' : RequestPc} {reply : Reply}
    {effects : List Effect} (h : w.resumeRequest s pc reply = some (pc', effects)) :
    RequestMove s pc reply effects := by
  cases resumeRequest_stretch h
  case refreshed path rest balance => exact .refreshed path rest balance rfl rfl
  case counted path rest latest pending => exact .reconciled path rest latest pending rfl rfl
  all_goals exact .silent

/-- The rule of the loop that applies the derived addresses. -/
theorem applyAddresses_invariant (P : WorkerPool → Prop) (pool : WorkerPool)
    (derived : List DerivedWorker) (h : P pool)
    (hstep : ∀ pool path address, P pool → P (pool.setAddress path address)) :
    P (applyAddresses pool derived) := by
  induction derived generalizing pool with
  | nil => exact h
  | cons d rest ih => exact ih _ (hstep pool d.path d.address h)

/-- Resuming a derivation changes its promise, and applies the addresses when it is done. -/
theorem step_resumeDerivation {s : Setup} {w w' : World} {index : Nat} {reply : Reply}
    (h : step s w (.resumeDerivation index reply) = some w') :
    ∃ pool addressesReady derivations, w' = { w with pool, addressesReady, derivations } ∧
      (pool = w.pool ∨ ∃ solana derived,
        w.derivations[index]? = some (.deriving solana [] derived) ∧
        pool = applyAddresses w.pool derived ∧
        derivations = w.derivations.set index .fulfilled) := by
  simp only [step, Option.bind_eq_some_iff] at h
  obtain ⟨d, hd, h⟩ := h
  cases resumeDerivation_stretch h
  case derived => exact ⟨_, _, _, rfl, .inl rfl⟩
  case threw => exact ⟨_, _, _, rfl, .inl rfl⟩
  case applied => exact ⟨_, _, _, rfl, .inr ⟨_, _, hd, rfl, rfl⟩⟩
  case caught => exact ⟨_, _, _, rfl, .inl rfl⟩

/-- Only a pending timer of a waiter fires. -/
theorem step_expire {s : Setup} {w w' : World} {job : Nat}
    (h : step s w (.expire job) = some w') :
    job ∈ w.pool.timers ∧ w' = w.setPool (w.pool.expire job) := by
  simp only [step] at h
  split at h
  · rename_i hmem
    exact ⟨hmem, (Option.some.inj h).symm⟩
  · cases h

/-- The respond deadline aborts the frame that set it. -/
theorem step_respondDeadline {s : Setup} {w w' : World} {job : Nat}
    (h : step s w (.respondDeadline job) = some w') :
    ∃ f, w.frames[job]? = some f ∧ f.respondDeadline = true ∧
      w' = { w with frames := w.frames.set job
                      { f.abort (respondDeadlineError s) with respondDeadline := false } } := by
  simp only [step, Option.bind_eq_some_iff] at h
  obtain ⟨f, hf, h⟩ := h
  split at h
  · rename_i hset
    exact ⟨f, hf, hset, (Option.some.inj h).symm⟩
  · cases h

/-- No job is forgotten. -/
theorem frames_length_step {s : Setup} {w w' : World} {a : Action} (h : step s w a = some w') :
    w.frames.length ≤ w'.frames.length := by
  cases a with
  | start mode =>
    cases h
    obtain ⟨frame, hframes, _⟩ := start_frames w s mode
    -- the only step that adds a frame
    rw [hframes, List.length_append]
    exact Nat.le_add_right _ _
  | getWorkers =>
    cases h
    exact Nat.le_of_eq (congrArg List.length (ensureAddresses_frames w s)).symm
  | resume job reply =>
    obtain ⟨f, f', effects, _, _, rfl⟩ := step_resume h
    -- a job that goes on has its frame replaced
    rw [performAll_frames, List.length_set]
  | resumeRequest request reply =>
    obtain ⟨pc, pc', effects, _, _, rfl⟩ := step_resumeRequest h
    rw [performAll_frames]
  | resumeDerivation index reply =>
    obtain ⟨_, _, _, rfl, _⟩ := step_resumeDerivation h
    exact Nat.le_refl _
  | expire job =>
    obtain ⟨_, rfl⟩ := step_expire h
    exact Nat.le_refl _
  | respondDeadline job =>
    obtain ⟨f, _, _, rfl⟩ := step_respondDeadline h
    rw [List.length_set]
  | abortActiveJobs =>
    cases h
    -- aborting changes the frames in place
    have hkept := congrArg List.length (abortActiveJobs_map w (fun _ => ()) fun _ => rfl)
    rw [List.length_map, List.length_map] at hkept
    exact Nat.le_of_eq hkept.symm
  | clock now =>
    cases h
    exact Nat.le_refl _

end World

end ContractPinger
