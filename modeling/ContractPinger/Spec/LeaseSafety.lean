import ContractPinger.Spec.JobLifecycle
import ContractPinger.Spec.LeaseLedger

/-!
# Lease exclusivity

A job releases its lease early when its transaction confirms, otherwise in the `finally`
block, and the `leaseReleased` flag keeps the second from repeating the first. Here each
`await` of `run()` is shown to make one `LeaseMove`, the moves are shown to keep the pool's
ledger, and exclusivity follows for every interleaving.

## Key results

- `resume_lease`: from one `await` to the next a job makes one lease move
- `leaseInv_step`: every step of the service keeps the ledger
- `lease_safety`: exclusivity and the absence of leaked leases, in every reachable state
-/

namespace ContractPinger

open Machine

/-- The part of `run()` a stage belongs to, as far as the lease goes. -/
inductive Phase
  | before
  | waiting
  | held
  | after
deriving DecidableEq, Repr

def Stage.phase : Stage → Phase
  | .idle => .before
  | .leasing => .waiting
  | .leased => .held
  | .requested => .held
  | .signed => .held
  | .verified => .held
  | .broadcast => .held
  | .confirmed => .after
  | .rejected => .after
  | .ended => .after

/-- A call that moves a lease. -/
def Effect.movesLease : Effect → Bool
  | .acquireWithin _ => true
  | .release _ => true
  | _ => false

/-- What one stretch of a job's code does about its lease. -/
inductive LeaseMove (pool : WorkerPool) (job : Nat) : Tenure → Tenure → List Effect → Prop
  | keep (tenure : Tenure) : LeaseMove pool job tenure tenure []
  | ask : LeaseMove pool job .idle .waiting [.acquireWithin job]
  | giveUp : LeaseMove pool job .idle .over []
  | take (path : String) : pool.settlement job = some (.resolved path) →
      LeaseMove pool job .waiting (.holding path) []
  | lose (error : JobError) : pool.settlement job = some (.rejected error) →
      LeaseMove pool job .waiting .over []
  | release (path : String) : LeaseMove pool job (.holding path) .over [.release path]

namespace Frame

def phase (f : Frame) : Phase := f.pc.stage.phase

/-- The phase is read off the `await`. -/
theorem phase_eq {f : Frame} {pc : Pc} (hpc : f.pc = pc) : f.phase = pc.stage.phase := by
  rw [phase, hpc]

/-- Where a job stands with the pool. -/
def tenure (f : Frame) : Tenure :=
  match f.phase with
  | .before => .idle
  | .waiting => .waiting
  | .held => (f.worker.map Tenure.holding).getD .over
  | .after => .over

/-- The lease bookkeeping of `run()` agrees with the `await` it is suspended at. -/
def Wf (f : Frame) : Prop :=
  match f.phase with
  | .before => f.worker = none ∧ f.leaseReleased = false
  | .waiting => f.worker = none ∧ f.leaseReleased = false
  | .held => f.worker.isSome = true ∧ f.leaseReleased = false
  | .after => f.worker = none ∨ f.leaseReleased = true

/-- The next frame is well-formed, and the lease has made one move. -/
def MovesLease (pool : WorkerPool) (job : Nat) (f : Frame) (next : Frame × List Effect) : Prop :=
  next.1.Wf ∧ LeaseMove pool job f.tenure next.1.tenure (next.2.filter Effect.movesLease)

/-! ## The ways on from an `await`, seen from the lease -/

section Ways

variable {pool : WorkerPool} {job : Nat} {f g : Frame} {pc : Pc} {effects : List Effect}

/-- Going on in the same phase, with the same bookkeeping. -/
theorem movesLease_await (hwf : f.Wf) (hphase : pc.stage.phase = f.phase)
    (hworker : g.worker = f.worker) (hreleased : g.leaseReleased = f.leaseReleased)
    (heff : effects.filter Effect.movesLease = []) :
    MovesLease pool job f (g.await pc effects) := by
  have hnext : (g.await pc effects).1.phase = f.phase := hphase
  have hw : (g.await pc effects).1.worker = f.worker := hworker
  have hr : (g.await pc effects).1.leaseReleased = f.leaseReleased := hreleased
  constructor
  · unfold Wf at hwf ⊢
    rw [hnext, hw, hr]
    exact hwf
  · have htenure : (g.await pc effects).1.tenure = f.tenure := by
      unfold tenure
      rw [hnext, hw]
    rw [htenure, show (g.await pc effects).2 = effects from rfl, heff]
    exact .keep _

/-- `releaseLease` releases a lease once. -/
theorem releaseLease_cases (g : Frame) :
    (∃ path, g.worker = some path ∧ g.leaseReleased = false ∧
        g.releaseLease = ({ g with leaseReleased := true }, [.release path])) ∨
      (g.worker = none ∨ g.leaseReleased = true) ∧ g.releaseLease = (g, []) := by
  cases hworker : g.worker with
  | none => exact .inr ⟨.inl rfl, by simp only [releaseLease, hworker]⟩
  | some path =>
    cases hreleased : g.leaseReleased with
    | false => exact .inl ⟨path, rfl, rfl, by simp only [releaseLease, hworker, hreleased]⟩
    | true => exact .inr ⟨.inr rfl, by simp only [releaseLease, hworker, hreleased]⟩

@[simp] theorem releaseLease_worker (g : Frame) : g.releaseLease.1.worker = g.worker := by
  unfold releaseLease
  split <;> rfl

@[simp] theorem releaseLease_listed (g : Frame) : g.releaseLease.1.listed = g.listed := by
  unfold releaseLease
  split <;> rfl

@[simp] theorem releaseLease_aborted (g : Frame) : g.releaseLease.1.aborted = g.aborted := by
  unfold releaseLease
  split <;> rfl

@[simp] theorem releaseLease_respondDeadline (g : Frame) :
    g.releaseLease.1.respondDeadline = g.respondDeadline := by
  unfold releaseLease
  split <;> rfl

/-- `releaseLease` makes no call but a release. -/
theorem mem_releaseLease {effect : Effect} (h : effect ∈ g.releaseLease.2) :
    ∃ path, effect = .release path := by
  rcases g.releaseLease_cases with ⟨path, _, _, heq⟩ | ⟨_, heq⟩
  · rw [heq] at h
    exact ⟨path, List.mem_singleton.mp h⟩
  · rw [heq] at h
    cases h

/-- The `finally` block adds a release. -/
theorem mem_finish {effect : Effect} (h : effect ∈ (g.finish pc effects).2) :
    effect ∈ effects ∨ ∃ path, effect = .release path :=
  (List.mem_append.mp h).imp_right mem_releaseLease

/-- A `throwIfAborted` adds a release at most. -/
theorem mem_proceed {effect : Effect} {before : List Effect}
    (h : effect ∈ (g.proceed pc before effects).2) :
    effect ∈ before ++ effects ∨ ∃ path, effect = .release path := by
  unfold proceed at h
  split at h
  · exact (mem_finish h).imp_left fun hbefore => List.mem_append_left _ hbefore
  · exact .inl h

/-- What holds of every release holds of the call of `releaseLease`. -/
theorem all_releaseLease {p : Effect → Bool} (hp : ∀ path, p (.release path) = true) :
    g.releaseLease.2.all p = true := by
  rw [List.all_eq_true]
  intro effect hmem
  obtain ⟨path, rfl⟩ := mem_releaseLease hmem
  exact hp path

/-- What holds of the calls of a stretch and of releases holds of all that a run leaves with. -/
theorem all_finish {p : Effect → Bool} (hp : ∀ path, p (.release path) = true)
    (heffects : effects.all p = true) : (g.finish pc effects).2.all p = true := by
  show (effects ++ g.releaseLease.2).all p = true
  rw [List.all_append, heffects, all_releaseLease hp]
  rfl

/-- And past a `throwIfAborted`. -/
theorem all_proceed {p : Effect → Bool} {before : List Effect}
    (hp : ∀ path, p (.release path) = true) (hbefore : before.all p = true)
    (heffects : effects.all p = true) : (g.proceed pc before effects).2.all p = true := by
  unfold proceed
  split
  · exact all_finish hp hbefore
  · show (before ++ effects).all p = true
    rw [List.all_append, hbefore, heffects]
    rfl

/-- The `finally` block gives back what is held, once. -/
theorem movesLease_finish (hwf : f.Wf) (hphase : f.phase ≠ .waiting)
    (hpc : pc.stage.phase = .after) (hworker : g.worker = f.worker)
    (hreleased : g.leaseReleased = f.leaseReleased)
    (heff : effects.filter Effect.movesLease = []) :
    MovesLease pool job f (g.finish pc effects) := by
  have hafter : (g.finish pc effects).1.phase = .after := hpc
  have htenure : (g.finish pc effects).1.tenure = .over := by
    unfold tenure
    rw [hafter]
  have hcalls : (g.finish pc effects).2.filter Effect.movesLease =
      g.releaseLease.2.filter Effect.movesLease := by
    show (effects ++ g.releaseLease.2).filter Effect.movesLease = _
    rw [List.filter_append, heff, List.nil_append]
  rw [MovesLease, htenure, hcalls]
  rcases g.releaseLease_cases with ⟨path, hpath, hfalse, heq⟩ | ⟨hdone, heq⟩
  · -- the lease is still out: it goes back
    rw [heq]
    constructor
    · unfold Wf
      rw [hafter]
      refine .inr ?_
      show g.releaseLease.1.leaseReleased = true
      rw [heq]
    · have hheld : f.tenure = .holding path := by
        rw [hworker] at hpath
        rw [hreleased] at hfalse
        cases hf : f.phase <;> simp only [Wf, hf, hpath, hfalse, reduceCtorEq, false_and,
          or_self] at hwf
        simp only [tenure, hf, hpath, Option.map_some, Option.getD_some]
      rw [hheld]
      exact .release path
  · rw [heq]
    constructor
    · unfold Wf
      rw [hafter]
      show g.releaseLease.1.worker = none ∨ g.releaseLease.1.leaseReleased = true
      rw [heq]
      exact hdone
    · rw [hworker, hreleased] at hdone
      cases hf : f.phase with
      | waiting => exact absurd hf hphase
      | before =>
        rw [show f.tenure = .idle by simp only [tenure, hf]]
        exact .giveUp
      | held =>
        simp only [Wf, hf] at hwf
        rcases hdone with hnone | htrue
        · rw [hnone] at hwf
          simp at hwf
        · rw [htrue] at hwf
          simp at hwf
      | after =>
        rw [show f.tenure = .over by simp only [tenure, hf]]
        exact .keep _

/-- Throwing gives back what is leased. -/
theorem movesLease_throws {error : JobError} (hwf : f.Wf) (hphase : f.phase ≠ .waiting)
    (heff : effects.filter Effect.movesLease = []) :
    MovesLease pool job f (f.throws error effects) :=
  movesLease_finish hwf hphase rfl rfl rfl heff

/-- So does returning. -/
theorem movesLease_returns (hwf : f.Wf) (hphase : f.phase ≠ .waiting)
    (hworker : g.worker = f.worker) (hreleased : g.leaseReleased = f.leaseReleased)
    (heff : effects.filter Effect.movesLease = []) :
    MovesLease pool job f (g.returns effects) :=
  movesLease_finish hwf hphase rfl hworker hreleased heff

/-- Past a `throwIfAborted` the lease is kept or given back. -/
theorem movesLease_proceed {before : List Effect} (hwf : f.Wf) (hphase : f.phase ≠ .waiting)
    (hpc : pc.stage.phase = f.phase) (hbefore : before.filter Effect.movesLease = [])
    (heff : effects.filter Effect.movesLease = []) :
    MovesLease pool job f (f.proceed pc before effects) := by
  unfold proceed
  split
  · exact movesLease_throws hwf hphase hbefore
  · refine movesLease_await hwf hpc rfl rfl ?_
    rw [List.filter_append, hbefore, heff, List.nil_append]

/-- A build that failed gives it back. -/
theorem movesLease_buildFailed {path : String} {balance : Nat} {e : JsError} (hwf : f.Wf)
    (hphase : f.phase ≠ .waiting) :
    MovesLease pool job f (resumeLeased.buildFailed job path f balance e) := by
  unfold resumeLeased.buildFailed
  split
  · exact movesLease_returns hwf hphase rfl rfl rfl
  · exact movesLease_throws hwf hphase rfl

end Ways

/-! ## One resumption, one lease move -/

/-- From `leasing` on. -/
theorem resumeLeased_lease {s : Setup} {view : RunView} {job : Nat} {path : String} {f : Frame}
    {reply : Reply} {next : Frame × List Effect} (hwf : f.Wf)
    (h : f.resumeLeased s view job path f.pc reply = some next) :
    MovesLease view.pool job f next := by
  generalize hpc : f.pc = pc at h
  have hf : f.phase = pc.stage.phase := phase_eq hpc
  cases resumeLeased_stretch h
  -- the preflight
  case poor => exact movesLease_returns hwf (by simp [hf, Pc.stage, Stage.phase]) rfl rfl rfl
  case funded => exact movesLease_proceed hwf (by simp [hf, Pc.stage, Stage.phase]) hf.symm rfl rfl
  case balanceFailed => exact movesLease_throws hwf (by simp [hf, Pc.stage, Stage.phase]) rfl
  -- the build
  case nonceRead => exact movesLease_await hwf hf.symm rfl rfl rfl
  case nonceFailed => exact movesLease_buildFailed hwf (by simp [hf, Pc.stage, Stage.phase])
  case unaffordable =>
    exact movesLease_returns hwf (by simp [hf, Pc.stage, Stage.phase]) rfl rfl rfl
  case built => exact movesLease_proceed hwf (by simp [hf, Pc.stage, Stage.phase]) hf.symm rfl rfl
  case estimateFailed => exact movesLease_buildFailed hwf (by simp [hf, Pc.stage, Stage.phase])
  -- the Solana send
  case instructed => exact movesLease_await hwf hf.symm rfl rfl rfl
  case uninstructed => exact movesLease_throws hwf (by simp [hf, Pc.stage, Stage.phase]) rfl
  case requested => exact movesLease_await hwf hf.symm rfl rfl rfl
  case unrequested => exact movesLease_throws hwf (by simp [hf, Pc.stage, Stage.phase]) rfl
  -- the signature
  case signed => exact movesLease_await hwf hf.symm rfl rfl rfl
  case unsigned => exact movesLease_returns hwf (by simp [hf, Pc.stage, Stage.phase]) rfl rfl rfl
  case unattached => exact movesLease_throws hwf (by simp [hf, Pc.stage, Stage.phase]) rfl
  case mismatched => exact movesLease_returns hwf (by simp [hf, Pc.stage, Stage.phase]) rfl rfl rfl
  case verified => exact movesLease_await hwf hf.symm rfl rfl rfl
  -- broadcast and confirmation
  case broadcast => exact movesLease_await hwf hf.symm rfl rfl rfl
  case broadcastFailed =>
    exact movesLease_returns hwf (by simp [hf, Pc.stage, Stage.phase]) rfl rfl rfl
  case confirmed released effects hrel =>
    -- the early release: the `finally` block will find it done
    have hheld : f.phase = .held := hf
    simp only [Wf, hheld, Option.isSome_iff_exists] at hwf
    obtain ⟨⟨held, hworker⟩, hfalse⟩ := hwf
    have htenure : f.tenure = .holding held := by
      simp only [tenure, hheld, hworker, Option.map_some, Option.getD_some]
    simp only [releaseLease, hworker, hfalse, Prod.mk.injEq] at hrel
    obtain ⟨rfl, rfl⟩ := hrel
    refine ⟨.inr rfl, ?_⟩
    rw [htenure]
    exact .release held
  case reverted => exact movesLease_returns hwf (by simp [hf, Pc.stage, Stage.phase]) rfl rfl rfl
  case unconfirmed => exact movesLease_returns hwf (by simp [hf, Pc.stage, Stage.phase]) rfl rfl rfl
  -- the respond
  case unexpected => exact movesLease_returns hwf (by simp [hf, Pc.stage, Stage.phase]) rfl rfl rfl
  case responded => exact movesLease_returns hwf (by simp [hf, Pc.stage, Stage.phase]) rfl rfl rfl
  case unresponded => exact movesLease_returns hwf (by simp [hf, Pc.stage, Stage.phase]) rfl rfl rfl

/-- Whatever an `await` is answered, the job makes one lease move. -/
theorem resume_lease {s : Setup} {view : RunView} {job : Nat} {f : Frame} {reply : Reply}
    {next : Frame × List Effect} (hwf : f.Wf) (h : f.resume s view job reply = some next) :
    MovesLease view.pool job f next := by
  cases resume_stretch h
  -- `ensureAddresses`
  case underived hpc _ _ =>
    have hf : f.phase = .before := phase_eq hpc
    exact movesLease_throws hwf (by simp [hf]) rfl
  case derived hpc _ =>
    have hf : f.phase = .before := phase_eq hpc
    exact movesLease_await hwf hf.symm rfl rfl rfl
  -- `reconcileQuarantined`
  case counted hpc =>
    have hf : f.phase = .before := phase_eq hpc
    exact movesLease_await hwf hf.symm rfl rfl rfl
  case uncounted hpc =>
    have hf : f.phase = .before := phase_eq hpc
    exact movesLease_throws hwf (by simp [hf]) rfl
  case reconciled hpc =>
    have hf : f.phase = .before := phase_eq hpc
    exact movesLease_await hwf hf.symm rfl rfl rfl
  -- `refreshUnderfunded`
  case refreshed hpc =>
    have hf : f.phase = .before := phase_eq hpc
    exact movesLease_await hwf hf.symm rfl rfl rfl
  case unrefreshed hpc =>
    have hf : f.phase = .before := phase_eq hpc
    exact movesLease_throws hwf (by simp [hf]) rfl
  case asked hpc =>
    have hf : f.phase = .before := phase_eq hpc
    unfold proceed
    split
    · exact movesLease_throws hwf (by simp [hf]) rfl
    · -- asking for an address
      simp only [Wf, hf] at hwf
      have htenure : f.tenure = .idle := by simp only [tenure, hf]
      refine ⟨hwf, ?_⟩
      rw [htenure]
      exact .ask
  -- `acquireWithin`
  case refused hpc error hset =>
    have hf : f.phase = .waiting := phase_eq hpc
    simp only [Wf, hf] at hwf
    have hrelease : f.releaseLease = (f, []) := by simp only [releaseLease, hwf.1]
    have htenure : f.tenure = .waiting := by simp only [tenure, hf]
    constructor
    · refine .inl ?_
      show f.releaseLease.1.worker = none
      rw [hrelease]
      exact hwf.1
    · rw [htenure]
      show LeaseMove view.pool job .waiting .over (f.releaseLease.2.filter Effect.movesLease)
      rw [hrelease]
      exact .lose error hset
  case leased hpc path hset =>
    have hf : f.phase = .waiting := phase_eq hpc
    simp only [Wf, hf] at hwf
    have htenure : f.tenure = .waiting := by simp only [tenure, hf]
    refine ⟨⟨rfl, hwf.2⟩, ?_⟩
    rw [htenure]
    exact .take path hset
  -- the `catch` of `start`
  case recorded hpc =>
    have hf : f.phase = .after := phase_eq hpc
    simp only [Wf, hf] at hwf
    have htenure : f.tenure = .over := by simp only [tenure, hf]
    refine ⟨hwf, ?_⟩
    rw [htenure]
    exact .keep _
  case works h => exact resumeLeased_lease hwf h

end Frame

/-! ## Calls on the pool, seen from the ledger -/

namespace WorkerPool

variable {tenure tenure' : Nat → Tenure} {pool : WorkerPool} {job : Nat} {now : Millis}

/-- A call that moves no lease keeps the ledger. -/
theorem Ledger.onPool (h : Ledger tenure pool) {effect : Effect}
    (hquiet : effect.movesLease = false) : Ledger tenure (effect.onPool now pool) := by
  cases effect with
  | acquireWithin _ => cases hquiet
  | release _ => cases hquiet
  | setBalance path _ _ => exact h.modifyWorker path fun _ => ⟨rfl, rfl⟩
  | quarantine path _ => exact h.modifyWorker path fun _ => ⟨rfl, rfl⟩
  | reconcile path _ =>
    refine h.modifyWorker path fun w => ?_
    split <;> exact ⟨rfl, rfl⟩
  | update _ _ => exact h
  | fail _ _ _ => exact h
  | began _ _ => exact h

/-- Calls that move no lease keep the agreement. -/
theorem Ledger.onPools (h : Ledger tenure pool) {effects : List Effect}
    (hquiet : ∀ effect ∈ effects, ¬ effect.movesLease = true) :
    Ledger tenure (effects.foldl (fun pool effect => effect.onPool now pool) pool) := by
  induction effects generalizing pool with
  | nil => exact h
  | cons effect rest ih =>
    rw [List.foldl_cons]
    refine ih (h.onPool ?_) fun e he => hquiet e (List.mem_cons_of_mem _ he)
    exact Bool.not_eq_true _ ▸ hquiet effect List.mem_cons_self

/-- A stretch of a job's code keeps the ledger, with the tenure its lease move leads to. -/
theorem Ledger.leaseMove (h : Ledger tenure pool) (now : Millis) {effects : List Effect}
    (hmove : LeaseMove pool job (tenure job) (tenure' job) (effects.filter Effect.movesLease))
    (hsame : ∀ i, i ≠ job → tenure' i = tenure i) :
    Ledger tenure' (effects.foldl (fun pool effect => effect.onPool now pool) pool) := by
  generalize hcalls : effects.filter Effect.movesLease = calls at hmove
  generalize hold : tenure job = old at hmove
  generalize hnew : tenure' job = new at hmove
  cases hmove with
  | keep =>
    have hall : tenure' = tenure := by
      funext i
      by_cases hi : i = job
      · rw [hi, hnew, hold]
      · exact hsame i hi
    rw [hall]
    exact h.onPools (List.filter_eq_nil_iff.mp hcalls)
  | ask =>
    obtain ⟨before, after, rfl, hbefore, _, hafter⟩ := List.filter_eq_cons_iff.mp hcalls
    rw [List.foldl_append, List.foldl_cons]
    -- what is called before and after it moves no lease
    exact ((h.onPools hbefore).acquireWithin hold hnew hsame).onPools
      (List.filter_eq_nil_iff.mp hafter)
  | giveUp =>
    -- whoever gives up here never asked
    have hnone : ∀ path, ¬ pool.Holds tenure job path := by
      rintro path (hp | ⟨hp, _⟩) <;> rw [hold] at hp <;> cases hp
    have hqueued : job ∉ pool.waiters := by
      intro hmem
      have hwait := h.queued job hmem
      rw [hold] at hwait
      cases hwait
    exact (h.leave hnone hqueued hnew hsame).onPools (List.filter_eq_nil_iff.mp hcalls)
  | take path hset =>
    exact (h.take hold hset hnew hsame).onPools (List.filter_eq_nil_iff.mp hcalls)
  | lose error hset =>
    obtain ⟨hmem, hqueued⟩ := h.not_queued hset
    have hnone := h.rejected_holds_nothing hmem
    exact (h.leave hnone hqueued hnew hsame).onPools (List.filter_eq_nil_iff.mp hcalls)
  | release path =>
    obtain ⟨before, after, rfl, hbefore, _, hafter⟩ := List.filter_eq_cons_iff.mp hcalls
    rw [List.foldl_append, List.foldl_cons]
    exact ((h.onPools hbefore).release hold hnew hsame now).onPools
      (List.filter_eq_nil_iff.mp hafter)

end WorkerPool

namespace World

/-! ## The invariant of the leases -/

/-- Where each job stands with the pool; a job not yet accepted has not called. -/
def tenure (w : World) (job : Nat) : Tenure := (w.frames[job]?.map Frame.tenure).getD .idle

/-- A job's hold on a worker is that of its frame. -/
theorem tenure_eq {w : World} {job : Nat} {f : Frame} (hf : w.frames[job]? = some f) :
    w.tenure job = f.tenure := by
  rw [tenure, hf]
  rfl

/-- Every frame keeps its books, and so does the pool. -/
structure LeaseInv (w : World) : Prop where
  wf : ∀ f ∈ w.frames, f.Wf
  ledger : w.pool.Ledger w.tenure

/-- On a new service nothing is held. -/
theorem leaseInv_new (s : Setup) (now : Millis) : (World.new s now).LeaseInv where
  wf _ h := nomatch h
  ledger := .new (buildPaths_nodup _ _) fun _ => rfl

/-- Frames with the same tenures give the same tenure to every job. -/
theorem tenure_congr {w w' : World}
    (h : w'.frames.map Frame.tenure = w.frames.map Frame.tenure) : w'.tenure = w.tenure := by
  funext job
  rw [tenure, tenure, ← List.getElem?_map, ← List.getElem?_map, h]

/-- Resuming a job keeps the books. -/
theorem LeaseInv.resume {s : Setup} {w w' : World} {job : Nat} {reply : Reply} (h : w.LeaseInv)
    (hstep : step s w (.resume job reply) = some w') : w'.LeaseInv := by
  obtain ⟨f, f', effects, hf, hresume, rfl⟩ := step_resume hstep
  obtain ⟨hwf', hmove⟩ := Frame.resume_lease (h.wf f (List.mem_of_getElem? hf)) hresume
  have hlt : job < w.frames.length := (List.getElem?_eq_some_iff.mp hf).1
  let moved : World := { w with frames := w.frames.set job f' }
  have hold : w.tenure job = f.tenure := by
    rw [tenure, hf]
    rfl
  have hnew : moved.tenure job = f'.tenure := by
    show ((w.frames.set job f')[job]?.map Frame.tenure).getD .idle = _
    rw [List.getElem?_set_self hlt]
    rfl
  have hsame : ∀ i, i ≠ job → moved.tenure i = w.tenure i := by
    intro i hi
    show ((w.frames.set job f')[i]?.map Frame.tenure).getD .idle = _
    rw [List.getElem?_set_ne (Ne.symm hi)]
    rfl
  -- only the resumed job's hold has moved
  rw [← hold, ← hnew] at hmove
  refine ⟨?_, ?_⟩
  · intro g hg
    rw [performAll_frames] at hg
    rcases List.mem_or_eq_of_mem_set hg with hg | rfl
    · exact h.wf g hg
    · exact hwf'
  · have htenure : (moved.performAll (.job job) effects).tenure = moved.tenure :=
      tenure_congr (by rw [performAll_frames])
    rw [htenure, performAll_pool]
    exact h.ledger.leaseMove w.now hmove hsame

/-- Accepting a job opens its account. -/
theorem LeaseInv.start {w : World} (h : w.LeaseInv) (s : Setup) (mode : TxMode) :
    (w.start s mode).LeaseInv := by
  obtain ⟨f, hframes, hworker, hreleased, hpc⟩ := start_frames w s mode
  have hwf : f.Wf := by
    rcases hpc with ⟨_, hpc⟩ | ⟨_, hpc⟩ <;> simp [Frame.Wf, Frame.phase, hpc, Pc.stage,
      Stage.phase, hworker, hreleased]
  have hlast : (w.start s mode).tenure w.frames.length = f.tenure := by
    rw [tenure, hframes, List.getElem?_concat_length]
    rfl
  have hsame : ∀ i, i ≠ w.frames.length → (w.start s mode).tenure i = w.tenure i := by
    intro i hi
    rw [tenure, tenure, hframes]
    by_cases hlt : i < w.frames.length
    · rw [List.getElem?_append_left hlt]
    · rw [List.getElem?_eq_none (by rw [List.length_append, List.length_singleton]; omega),
        List.getElem?_eq_none (by omega)]
  -- nobody has had the new id before
  have hidle : w.tenure w.frames.length = .idle := by
    rw [tenure, List.getElem?_eq_none (Nat.le_refl _)]
    rfl
  refine ⟨?_, ?_⟩
  · intro g hg
    rw [hframes] at hg
    rcases List.mem_append.mp hg with hg | hg
    · exact h.wf g hg
    · rw [List.mem_singleton.mp hg]
      exact hwf
  · have hmove : LeaseMove w.pool w.frames.length (w.tenure w.frames.length)
        ((w.start s mode).tenure w.frames.length)
        (([] : List Effect).filter Effect.movesLease) := by
      rw [hidle, hlast]
      rcases hpc with ⟨_, hpc⟩ | ⟨_, hpc⟩
      · rw [show f.tenure = .idle by simp only [Frame.tenure, Frame.phase, hpc, Pc.stage,
          Stage.phase]]
        exact .keep _
      · rw [show f.tenure = .over by simp only [Frame.tenure, Frame.phase, hpc, Pc.stage,
          Stage.phase]]
        exact .giveUp
    rw [start_pool]
    exact h.ledger.leaseMove 0 hmove hsame

/-- Every step of the service keeps the books. -/
theorem leaseInv_step {s : Setup} {w w' : World} {a : Action} (h : w.LeaseInv)
    (hstep : step s w a = some w') : w'.LeaseInv := by
  cases a with
  | start mode =>
    cases hstep
    exact h.start s mode
  | getWorkers =>
    cases hstep
    have hframes : (w.getWorkers s).frames = w.frames := ensureAddresses_frames w s
    refine ⟨fun f hf => h.wf f (hframes ▸ hf), ?_⟩
    rw [tenure_congr (w := w) (by rw [hframes]),
      show (w.getWorkers s).pool = w.pool from ensureAddresses_pool w s]
    exact h.ledger
  | resume job reply => exact h.resume hstep
  | resumeRequest request reply =>
    obtain ⟨pc, pc', effects, _, hresume, rfl⟩ := step_resumeRequest hstep
    refine ⟨fun f hf => h.wf f (by rwa [performAll_frames] at hf), ?_⟩
    rw [tenure_congr (w := w) (by rw [performAll_frames]), performAll_pool]
    -- a request marks balances and counts, and moves no lease
    refine h.ledger.onPools ?_
    intro e he
    cases resumeRequest_move hresume with
    | silent => cases he
    | refreshed | reconciled =>
      rw [List.mem_singleton.mp he]
      exact nofun
  | resumeDerivation index reply =>
    obtain ⟨pool, ready, derivations, rfl, hpool⟩ := step_resumeDerivation hstep
    refine ⟨h.wf, ?_⟩
    rcases hpool with rfl | ⟨_, derived, _, rfl, _⟩
    · exact h.ledger
    · refine applyAddresses_invariant (fun pool => pool.Ledger w.tenure) w.pool derived h.ledger ?_
      exact fun _ path _ hl => hl.modifyWorker path fun _ => ⟨rfl, rfl⟩
  | expire job =>
    obtain ⟨hmem, rfl⟩ := step_expire hstep
    exact ⟨h.wf, h.ledger.expire hmem⟩
  | respondDeadline job =>
    obtain ⟨f, hf, _, rfl⟩ := step_respondDeadline hstep
    refine ⟨?_, ?_⟩
    · intro g hg
      rcases List.mem_or_eq_of_mem_set hg with hg | rfl
      · exact h.wf g hg
      · exact h.wf f (List.mem_of_getElem? hf)
    · have hframes : (w.frames.set job { f.abort (respondDeadlineError s) with
          respondDeadline := false }).map Frame.tenure = w.frames.map Frame.tenure :=
        List.map_set_of_eq hf rfl
      rw [tenure_congr (w := w) hframes]
      exact h.ledger
  | abortActiveJobs =>
    cases hstep
    refine ⟨?_, ?_⟩
    · intro g hg
      obtain ⟨f, hf, rfl⟩ := List.mem_map.mp hg
      split
      · exact h.wf f hf
      · exact h.wf f hf
    · rw [tenure_congr (w := w) (abortActiveJobs_map w Frame.tenure fun _ => rfl)]
      exact h.ledger.rejectWaiters _
  | clock now =>
    cases hstep
    exact ⟨h.wf, h.ledger⟩

/-- The pool agrees with the jobs in every reachable state. -/
theorem leaseInv_reachable {s : Setup} {start : Millis} {w : World}
    (h : Reachable (step s) (World.new s start) w) : w.LeaseInv :=
  h.invariant (leaseInv_new s start) fun _ _ _ hinv _ hstep => leaseInv_step hinv hstep

/-! ## Exclusivity -/

/-- `job` is unfinished and holds `path`, or has been granted it and has not resumed yet. -/
def Holds (w : World) (job : Nat) (path : String) : Prop :=
  ∃ f : Frame, w.frames[job]? = some f ∧ f.pc ≠ .ended ∧
    (f.worker = some path ∧ f.leaseReleased = false ∨
      f.pc = .leasing ∧ (job, .resolved path) ∈ w.pool.settled)

/-- The locals of `run()` and the tenure tell the same story. -/
theorem LeaseInv.holds_iff {w : World} (h : w.LeaseInv) (job : Nat) (path : String) :
    w.Holds job path ↔ w.pool.Holds w.tenure job path := by
  constructor
  · rintro ⟨f, hf, _, hholds⟩
    have htenure := tenure_eq hf
    rcases hholds with ⟨hworker, hreleased⟩ | ⟨hpc, hmem⟩
    · have hwf := h.wf f (List.mem_of_getElem? hf)
      refine .inl ?_
      rw [htenure]
      cases hphase : f.phase <;> simp only [Frame.Wf, hphase, hworker, hreleased, reduceCtorEq,
        false_and, or_self] at hwf
      simp only [Frame.tenure, hphase, hworker, Option.map_some, Option.getD_some]
    · refine .inr ⟨?_, hmem⟩
      rw [htenure]
      simp only [Frame.tenure, Frame.phase, hpc, Pc.stage, Stage.phase]
  · intro hholds
    cases hf : w.frames[job]? with
    | none =>
      have hidle : w.tenure job = .idle := by
        rw [tenure, hf]
        rfl
      rcases hholds with hp | ⟨hp, _⟩ <;> rw [hidle] at hp <;> cases hp
    | some f =>
      have hwf := h.wf f (List.mem_of_getElem? hf)
      rw [WorkerPool.Holds, tenure_eq hf] at hholds
      cases hphase : f.phase <;> simp only [Frame.tenure, hphase, reduceCtorEq, false_or, or_false,
        false_and, true_and] at hholds
      · -- suspended at `acquireWithin`
        have hpc : f.pc = .leasing := by
          unfold Frame.phase at hphase
          cases hpc : f.pc <;> rw [hpc] at hphase <;> first | rfl | cases hphase
        exact ⟨f, hf, by simp [hpc], .inr ⟨hpc, hholds⟩⟩
      · -- in possession
        simp only [Frame.Wf, hphase, Option.isSome_iff_exists] at hwf
        obtain ⟨⟨held, hworker⟩, hreleased⟩ := hwf
        rw [hworker] at hholds
        have hsame : held = path := by
          rcases hholds with hp | ⟨hp, _⟩
          · exact Tenure.holding.inj hp
          · cases hp
        refine ⟨f, hf, ?_, .inl ⟨hsame ▸ hworker, hreleased⟩⟩
        intro hpc
        rw [Frame.phase, hpc] at hphase
        cases hphase

/-- The worker of a path that is held is busy. -/
theorem LeaseInv.worker_busy {w : World} (h : w.LeaseInv) {job : Nat} {path : String}
    (hholds : w.Holds job path) :
    ∃ worker ∈ w.pool.workers, worker.path = path ∧ worker.busy = true := by
  have hheld := (h.holds_iff job path).mp hholds
  have hbusy := (h.ledger.busy_iff path).mpr ⟨job, hheld⟩
  obtain ⟨worker, hworker, heq⟩ := List.mem_map.mp hbusy
  exact ⟨worker, hworker, congrArg Prod.fst heq, congrArg Prod.snd heq⟩

/-- Before and while it holds an address, the record of a job is active. -/
theorem active_of_phase {stage : Stage} {states : List JobState} {r : JobRecord}
    (h : stage.Tracks states r) (hphase : stage.phase = .waiting ∨ stage.phase = .held) :
    r.state.active = true := by
  have hlast := h.state
  have hvisited := h.visited
  cases stage <;> simp only [Stage.phase, reduceCtorEq, or_self] at hphase <;>
    (rw [show states = _ from hvisited] at hlast; rw [← Option.some.inj hlast]; rfl)

/-- The leases of a state are exclusive, accounted for, and none has leaked. -/
structure LeaseSafe (w : World) : Prop where
  exclusive : ∀ i j path, w.Holds i path → w.Holds j path → i = j
  busy_iff : ∀ worker ∈ w.pool.workers, worker.busy = true ↔ ∃! job, w.Holds job worker.path
  active : ∀ job path, w.Holds job path → ∃ r ∈ w.jobs.get? job, r.state.active = true
  settles_once : (w.pool.settled.map Prod.fst).Nodup
  rejected_gets_nothing : ∀ job error, (job, .rejected error) ∈ w.pool.settled →
    ∀ path, (job, .resolved path) ∉ w.pool.settled ∧ ¬ w.Holds job path
  none_leaked : (∀ f ∈ w.frames, f.pc = .ended) → ∀ worker ∈ w.pool.workers, worker.busy = false

/-- One path has one holder. -/
theorem LeaseInv.exclusive {w : World} (h : w.LeaseInv) {i j : Nat} {path : String}
    (hi : w.Holds i path) (hj : w.Holds j path) : i = j :=
  h.ledger.exclusive i j path ((h.holds_iff i path).mp hi) ((h.holds_iff j path).mp hj)

/-- A worker is busy when somebody holds its path. -/
theorem LeaseInv.busy_iff {w : World} (h : w.LeaseInv) {worker : Worker}
    (hworker : worker ∈ w.pool.workers) :
    worker.busy = true ↔ ∃ job, w.Holds job worker.path := by
  have hocc : (worker.path, true) ∈ w.pool.occupancy ↔ worker.busy = true := by
    constructor
    · intro hmem
      obtain ⟨other, hother, heq⟩ := List.mem_map.mp hmem
      have hpaths : (w.pool.workers.map Worker.path).Nodup := by
        have hnd := h.ledger.paths_nodup
        rw [WorkerPool.occupancy, List.map_map] at hnd
        exact hnd
      -- paths are distinct, so the entry is this worker's
      have hsame : other = worker :=
        List.inj_on_of_nodup_map hpaths hother hworker (congrArg Prod.fst heq)
      rw [← hsame]
      exact congrArg Prod.snd heq
    · intro hb
      rw [← hb]
      exact List.mem_map_of_mem hworker
  rw [← hocc, h.ledger.busy_iff]
  exact exists_congr fun job => (h.holds_iff job worker.path).symm

/-- Whoever holds a path is queued for it or in possession. -/
theorem LeaseInv.holder_phase {w : World} (h : w.LeaseInv) {job : Nat} {path : String} {f : Frame}
    (hholds : w.Holds job path) (hf : w.frames[job]? = some f) :
    f.phase = .waiting ∨ f.phase = .held := by
  have hp := (h.holds_iff job path).mp hholds
  rw [WorkerPool.Holds, tenure_eq hf] at hp
  cases hphase : f.phase <;> simp only [Frame.tenure, hphase, reduceCtorEq, false_and,
    or_self] at hp
  · exact .inl rfl
  · exact .inr rfl

/-- The record of a holder is there, and active. -/
theorem LeaseInv.holder_active {w : World} (h : w.LeaseInv) (hjobs : w.JobsInv) {job : Nat}
    {path : String} (hholds : w.Holds job path) :
    ∃ r ∈ w.jobs.get? job, r.state.active = true := by
  have hframe := hholds
  obtain ⟨f, hf, _, _⟩ := hframe
  have hphase : f.pc.stage.phase = .waiting ∨ f.pc.stage.phase = .held :=
    h.holder_phase hholds hf
  have hstage : f.pc.stage ≠ .ended := by
    intro hended
    rw [hended] at hphase
    rcases hphase with hp | hp <;> cases hp
  obtain ⟨r, hr, rfl⟩ := hjobs.kept job f hf hstage
  have hactive := active_of_phase (hjobs.tracks_frame hr hf) hphase
  exact ⟨r, JobStore.get?_of_mem hjobs.ids_nodup hr, hactive⟩

/-- In every reachable state, whatever the `await`s were answered, the leases are safe. -/
theorem lease_safety {s : Setup} {start : Millis} {w : World}
    (h : Reachable (step s) (World.new s start) w) : w.LeaseSafe := by
  have hinv := leaseInv_reachable h
  have hjobs := jobsInv_reachable h
  refine ⟨fun i j path => hinv.exclusive, ?_, fun job path => hinv.holder_active hjobs,
    hinv.ledger.calls_nodup.of_append_right, ?_, ?_⟩
  · intro worker hworker
    rw [hinv.busy_iff hworker]
    constructor
    · rintro ⟨job, hjob⟩
      exact ⟨job, hjob, fun other hother => hinv.exclusive hother hjob⟩
    · rintro ⟨job, hjob, _⟩
      exact ⟨job, hjob⟩
  · intro job error hmem path
    refine ⟨fun hgrant => ?_, fun hholds => ?_⟩
    · -- a promise is settled once
      cases hinv.ledger.outcome_unique hmem hgrant
    · exact hinv.ledger.rejected_holds_nothing hmem path ((hinv.holds_iff job path).mp hholds)
  · intro hended worker hworker
    by_contra hb
    rw [Bool.not_eq_false, hinv.busy_iff hworker] at hb
    obtain ⟨job, f, hf, hopen, _⟩ := hb
    exact hopen (hended f (List.mem_of_getElem? hf))

/-- Two jobs and one address: the first holds it, the second is queued. -/
def contendedRun : List Action :=
  [.start .ethSelfTransfer, .start .ethSelfTransfer, .resumeDerivation 0 .resume,
    .resumeDerivation 0 .resume, .resume 0 .resume, .resume 1 .resume, .resume 0 .resume,
    .resume 1 .resume, .resume 0 .resume, .resume 1 .resume, .resume 0 .resume]

/-- The state that run ends in. -/
def contendedWorld : World :=
  (exec (step sampleSetup) (World.new sampleSetup 0) contendedRun).getD (World.new sampleSetup 0)

theorem exec_contendedRun :
    exec (step sampleSetup) (World.new sampleSetup 0) contendedRun = some contendedWorld :=
  exec_getD (by decide +kernel) _

/-- Two jobs and one address: one holds it, the other is queued. -/
theorem contendedRun_leases : contendedWorld.LeaseSafe ∧ contendedWorld.pool.waiters = [1] :=
  ⟨lease_safety (reachable_of_exec exec_contendedRun), by decide +kernel⟩

end World

end ContractPinger
