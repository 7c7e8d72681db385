import ContractPinger.Spec.JobStoreOps
import ContractPinger.Spec.WorldSteps

/-!
# The stages of a job

`run()` has many `await`s and more ways to return, but seen from its record a job only
passes through a few stages. `Stage.Move` is that automaton, with the patches each move
makes on the record; `resume_stage` is the proof that `Frame.resume` takes one move of it,
whatever the `await` was answered.

## Key results

- `resume_stage`: from one `await` to the next a job makes one move, and patches no record
  but its own
-/

namespace ContractPinger

/-- Where a job stands, as far as its record and its lease can tell. -/
inductive Stage
  /-- Before `acquireWithin`. -/
  | idle
  /-- Suspended at `acquireWithin`. -/
  | leasing
  /-- An address is leased; up to the Solana send. -/
  | leased
  /-- `awaiting_signature`, the signature not yet received. -/
  | requested
  /-- `awaiting_signature`, the signature received. -/
  | signed
  | verified
  | broadcast
  | confirmed
  /-- `run()` has rejected. -/
  | rejected
  | ended
deriving DecidableEq, Repr

/-- The stage of a suspended activation. -/
def Pc.stage : Pc → Stage
  | .ensuringAddresses _ => .idle
  | .reconciling _ => .idle
  | .refreshingUnderfunded _ => .idle
  | .leasing => .leasing
  | .readingBalance => .leased
  | .readingNonce _ => .leased
  | .estimatingGas _ _ _ => .leased
  | .buildingInstruction _ => .leased
  | .sendingSolana _ => .leased
  | .awaitingSignature _ => .requested
  | .attachingSignature _ _ => .signed
  | .broadcasting _ _ => .verified
  | .confirming _ _ => .broadcast
  | .responding => .confirmed
  | .rejected _ => .rejected
  | .ended => .ended

namespace Stage

/-- `run()` is still executing. -/
def running (stage : Stage) : Bool := stage != .rejected && stage != .ended

/-- A patch that leaves state, failure and stamps alone. -/
def Silent (patch : JobPatch) : Prop :=
  patch.state = none ∧ patch.failureReason = none ∧ patch.timings = {}

/-- One move, with the patches it makes on the record at the instant `now`. -/
inductive Move (now : Millis) : Stage → Stage → List JobPatch → Prop
  | stay (stage : Stage) (patches : List JobPatch) :
      stage.running = true → (∀ p ∈ patches, Silent p) → Move now stage stage patches
  | ask : Move now .idle .leasing []
  | lease (path : Option String) (derivedAddress : Option Hex) :
      Move now .leasing .leased
        [{ path, derivedAddress, timings := { leaseAcquiredAt := some now } }]
  | request (solanaTx : Option String) :
      Move now .leased .requested
        [{ state := some .signSent, solanaTx, timings := { signSentAt := some now } },
         { state := some .awaitingSignature }]
  | sign : Move now .requested .signed [{ timings := { signatureAt := some now } }]
  | verify : Move now .signed .verified [{ state := some .verified }]
  | broadcast (ethTxHash : Option Hex) :
      Move now .verified .broadcast
        [{ state := some .broadcast, ethTxHash, timings := { broadcastAt := some now } }]
  | confirm :
      Move now .broadcast .confirmed
        [{ state := some .confirmed, timings := { confirmedAt := some now } }]
  | respond (serializedOutput : Option String) :
      Move now .confirmed .ended
        [{ serializedOutput, timings := { respondedAt := some now } },
         { state := some .responded, timings := { finishedAt := some now } }]
  | mismatch (serializedOutput : Option String) (error : JobError) :
      Move now .confirmed .ended
        [{ serializedOutput, timings := { respondedAt := some now } },
         JobStore.failPatch .respondMismatch error now]
  | fail (stage : Stage) (reason : FailureReason) (error : JobError) :
      stage ≠ .ended → Move now stage .ended [JobStore.failPatch reason error now]
  | throw (stage : Stage) (patches : List JobPatch) :
      stage.running = true → (∀ p ∈ patches, Silent p) → Move now stage .rejected patches

/-- An ended job moves no more. -/
theorem Move.open {now : Millis} {a b : Stage} {ps : List JobPatch} (h : Move now a b ps) :
    a ≠ .ended := by
  rintro rfl
  cases h with
  | stay _ _ hrun _ => cases hrun
  | fail _ _ _ hopen => exact hopen rfl
  | throw _ _ hrun _ => cases hrun

/-- Only the last patch of a move finishes the record. -/
theorem Move.endsLast {now : Millis} {a b : Stage} {ps : List JobPatch} (h : Move now a b ps) :
    JobStore.EndsLast ps := by
  have hsilent : ∀ {ps : List JobPatch}, (∀ p ∈ ps, Silent p) → JobStore.EndsLast ps := by
    intro ps hps p hp state hstate
    rw [(hps p (List.dropLast_subset _ hp)).1] at hstate
    cases hstate
  cases h with
  | stay _ _ _ hps => exact hsilent hps
  | throw _ _ _ hps => exact hsilent hps
  -- of the moves with more than one patch, only the last one's may be final
  | request =>
    intro p hp state hstate
    rw [List.mem_singleton.mp hp] at hstate
    rw [← Option.some.inj hstate]
    rfl
  | respond =>
    intro p hp state hstate
    rw [List.mem_singleton.mp hp] at hstate
    cases hstate
  | mismatch =>
    intro p hp state hstate
    rw [List.mem_singleton.mp hp] at hstate
    cases hstate
  | _ => exact fun p hp => nomatch hp

end Stage

/-! ## The patches of a stretch of code -/

/-- The record a call patches, and how. -/
def Effect.patch? (now : Millis) : Effect → Option (Nat × JobPatch)
  | .update job patch => some (job, patch)
  | .fail job reason error => some (job, JobStore.failPatch reason error now)
  | _ => none

/-- The patches of one stretch of code, in order. -/
def patches (now : Millis) (effects : List Effect) : List (Nat × JobPatch) :=
  effects.filterMap (Effect.patch? now)

/-- The patches of two stretches of calls. -/
theorem patches_append (now : Millis) (effects rest : List Effect) :
    patches now (effects ++ rest) = patches now effects ++ patches now rest :=
  List.filterMap_append

@[simp] theorem patches_releaseLease (now : Millis) (f : Frame) :
    patches now f.releaseLease.2 = [] := by
  unfold Frame.releaseLease
  split <;> rfl

/-- A request patches no record. -/
theorem World.resumeRequest_patches {s : Setup} {w : World} {pc pc' : RequestPc} {reply : Reply}
    {effects : List Effect} (h : w.resumeRequest s pc reply = some (pc', effects))
    (now : Millis) : patches now effects = [] := by
  cases World.resumeRequest_move h <;> rfl

namespace Frame

/-! ## The ways on from an `await` -/

/-- The stages and the patches of a resumption of `job` are those of one move. -/
def Moves (now : Millis) (job : Nat) (f : Frame) (next : Frame × List Effect) : Prop :=
  ∃ ps : List JobPatch, Stage.Move now f.pc.stage next.1.pc.stage ps ∧
    patches now next.2 = ps.map (Prod.mk job)

section Ways

variable {now : Millis} {job : Nat} {f : Frame} {stage : Stage} {effects : List Effect}
  {ps : List JobPatch}

/-- A resumption that makes a move's patches and arrives at its stage. -/
theorem moves_to {next : Frame × List Effect} (hf : f.pc.stage = stage)
    (hmove : Stage.Move now stage next.1.pc.stage ps)
    (hps : patches now next.2 = ps.map (Prod.mk job)) : Moves now job f next := by
  subst hf
  exact ⟨ps, hmove, hps⟩

/-- Going on to an `await`. -/
theorem moves_await {g : Frame} {pc : Pc} (hf : f.pc.stage = stage)
    (hmove : Stage.Move now stage pc.stage ps) (hps : patches now effects = ps.map (Prod.mk job)) :
    Moves now job f (g.await pc effects) :=
  moves_to hf hmove hps

/-- The `finally` block releases, and patches nothing. -/
theorem moves_finish {g : Frame} {pc : Pc} (hf : f.pc.stage = stage)
    (hmove : Stage.Move now stage pc.stage ps) (hps : patches now effects = ps.map (Prod.mk job)) :
    Moves now job f (g.finish pc effects) := by
  refine moves_to hf hmove ?_
  show patches now (effects ++ g.releaseLease.2) = _
  rw [patches_append, patches_releaseLease, List.append_nil, hps]

/-- Throwing moves a job to `rejected`, with nothing written. -/
theorem moves_throws {g : Frame} {error : JobError} (hf : f.pc.stage = stage)
    (hrun : stage.running = true) (hps : patches now effects = []) :
    Moves now job f (g.throws error effects) :=
  moves_finish hf (.throw _ [] hrun fun _ h => nomatch h) hps

/-- The preflight's refusal writes a failure. -/
theorem moves_underfunded {g : Frame} {path : String} {balance threshold : Nat}
    {error : JobError} (hf : f.pc.stage = stage) (hopen : stage ≠ .ended) :
    Moves now job f (g.underfunded job path balance threshold error) :=
  moves_finish hf (.fail _ .preflightUnderfunded error hopen) rfl

/-- `abortIfShuttingDown` either throws or goes on. -/
theorem moves_proceed {pc : Pc} {before : List Effect} (hf : f.pc.stage = stage)
    (hrun : stage.running = true) (hsilent : ∀ p ∈ ps, Stage.Silent p)
    (hmove : Stage.Move now stage pc.stage ps)
    (hbefore : patches now before = ps.map (Prod.mk job)) (hafter : patches now effects = []) :
    Moves now job f (f.proceed pc before effects) := by
  unfold proceed
  split
  · exact moves_finish hf (.throw _ ps hrun hsilent) hbefore
  · apply moves_await hf hmove
    rw [patches_append, hafter, List.append_nil, hbefore]

/-- A build that failed writes one, or throws. -/
theorem moves_buildFailed {path : String} {balance : Nat} {e : JsError}
    (hf : f.pc.stage = .leased) :
    Moves now job f (resumeLeased.buildFailed job path f balance e) := by
  unfold resumeLeased.buildFailed
  split
  · exact moves_underfunded hf nofun
  · exact moves_throws hf rfl rfl

end Ways

/-! ## One resumption, one move -/

/-- Nothing written is silent. -/
private theorem silent_nil : ∀ p ∈ ([] : List JobPatch), Stage.Silent p :=
  fun _ h => nomatch h

/-- From `leasing` on. -/
theorem resumeLeased_stage {s : Setup} {view : RunView} {job : Nat} {path : String} {f : Frame}
    {reply : Reply} {next : Frame × List Effect}
    (h : f.resumeLeased s view job path f.pc reply = some next) :
    Moves view.now job f next := by
  generalize hpc : f.pc = pc at h
  have hf : f.pc.stage = pc.stage := by rw [hpc]
  cases resumeLeased_stretch h
  -- the preflight
  case poor => exact moves_underfunded hf nofun
  case funded => exact moves_proceed hf rfl silent_nil (.stay .leased [] rfl silent_nil) rfl rfl
  case balanceFailed => exact moves_throws hf rfl rfl
  -- the build
  case nonceRead => exact moves_await hf (.stay .leased [] rfl silent_nil) rfl
  case nonceFailed => exact moves_buildFailed hf
  case unaffordable => exact moves_underfunded hf nofun
  case built =>
    have hsilent : ∀ requestId nonce,
        ∀ p ∈ [({ requestId := some requestId, nonce := some nonce } : JobPatch)],
          Stage.Silent p := by
      intro requestId nonce p hp
      rw [List.mem_singleton.mp hp]
      exact ⟨rfl, rfl, rfl⟩
    exact moves_proceed hf rfl (hsilent _ _) (.stay .leased _ rfl (hsilent _ _)) rfl rfl
  case estimateFailed => exact moves_buildFailed hf
  -- the Solana send
  case instructed => exact moves_await hf (.stay .leased [] rfl silent_nil) rfl
  case uninstructed => exact moves_throws hf rfl rfl
  case requested => exact moves_await hf (.request _) rfl
  case unrequested => exact moves_throws hf rfl rfl
  -- the signature
  case signed => exact moves_await hf .sign rfl
  case unsigned => exact moves_finish hf (.fail _ _ _ nofun) rfl
  case unattached => exact moves_throws hf rfl rfl
  case mismatched => exact moves_finish hf (.fail _ _ _ nofun) rfl
  case verified => exact moves_await hf .verify rfl
  -- broadcast and confirmation
  case broadcast => exact moves_await hf (.broadcast _) rfl
  case broadcastFailed => exact moves_finish hf (.fail _ _ _ nofun) rfl
  case confirmed released effects hrel =>
    have heffects : patches view.now effects = [] := by
      rw [← patches_releaseLease view.now f, hrel]
    refine moves_to hf .confirm ?_
    show (job, _) :: patches view.now effects = _
    rw [heffects]
    rfl
  case reverted => exact moves_finish hf (.fail _ _ _ nofun) rfl
  case unconfirmed => exact moves_finish hf (.fail _ _ _ nofun) rfl
  -- the respond
  case unexpected => exact moves_finish hf (.mismatch _ _) rfl
  case responded => exact moves_finish hf (.respond _) rfl
  case unresponded => exact moves_finish hf (.fail _ _ _ nofun) rfl

/-- Whatever an `await` is answered, the job makes one move and patches its own record only. -/
theorem resume_stage {s : Setup} {view : RunView} {job : Nat} {f : Frame} {reply : Reply}
    {next : Frame × List Effect} (h : f.resume s view job reply = some next) :
    Moves view.now job f next := by
  cases resume_stretch h
  -- `ensureAddresses`
  case underived hpc _ _ => exact moves_throws (congrArg Pc.stage hpc) rfl rfl
  case derived hpc _ =>
    exact moves_await (congrArg Pc.stage hpc) (.stay .idle [] rfl silent_nil) rfl
  -- `reconcileQuarantined`
  case counted hpc => exact moves_await (congrArg Pc.stage hpc) (.stay .idle [] rfl silent_nil) rfl
  case uncounted hpc => exact moves_throws (congrArg Pc.stage hpc) rfl rfl
  case reconciled hpc =>
    exact moves_await (congrArg Pc.stage hpc) (.stay .idle [] rfl silent_nil) rfl
  -- `refreshUnderfunded`
  case refreshed hpc =>
    exact moves_await (congrArg Pc.stage hpc) (.stay .idle [] rfl silent_nil) rfl
  case unrefreshed hpc => exact moves_throws (congrArg Pc.stage hpc) rfl rfl
  case asked hpc => exact moves_proceed (congrArg Pc.stage hpc) rfl silent_nil .ask rfl rfl
  -- `acquireWithin`
  case refused hpc _ _ => exact moves_throws (congrArg Pc.stage hpc) rfl rfl
  case leased hpc _ _ => exact moves_await (congrArg Pc.stage hpc) (.lease _ _) rfl
  -- the `catch` of `start`
  case recorded hpc => exact moves_to (congrArg Pc.stage hpc) (.fail _ _ _ nofun) rfl
  case works h => exact resumeLeased_stage h

end Frame

end ContractPinger
