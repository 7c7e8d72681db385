import ContractPinger.Spec.Cleanup

/-!
# Shutdown starts no further work, and where it does

`abortIfShuttingDown` is called before an address is taken, before the transaction is built and
before the Solana send, and the signature wait rejects once its controller is aborted. Two
`await`s lie behind the last check before an operation: the instruction is built after the one,
the signature attached after the other. A job that the shutdown finds there goes on to send.

## Key results

- `Frame.resume_idle_iff`: with its controller aborted, a job starts an operation on leaving
  one of the two `await`s with success, and nowhere else
- `quiet_iff`: the runs in which nothing is started after `abortActiveJobs`
- `quiet_outside_gaps`: among them, all in which it finds no job at the two `await`s
-/

namespace ContractPinger

open Machine

/-- The call starts one of the operations that cannot be taken back: it asks for an address,
    builds, sends to Solana, or broadcasts. -/
def Effect.startsWork : Effect → Bool
  | .acquireWithin _ => true
  | .began _ _ => true
  | _ => false

/-- No call of the stretch starts an operation. -/
def Idle (effects : List Effect) : Prop := effects.all (fun e => !e.startsWork) = true

/-- Two such stretches make one. -/
theorem Idle.append {before after : List Effect} (hbefore : Idle before) (hafter : Idle after) :
    Idle (before ++ after) := by
  rw [Idle, List.all_append, hbefore, hafter]
  rfl

/-- After a stretch that starts nothing, the rest decides. -/
theorem idle_append_iff {before after : List Effect} (hbefore : Idle before) :
    Idle (before ++ after) ↔ Idle after := by
  rw [Idle, List.all_append, hbefore, Bool.true_and]
  rfl

/-- The job goes on from one of the two `await`s that no check follows, and with success. -/
def Pc.unchecked (s : Setup) (pool : WorkerPool) (worker : Option String) : Pc → Reply → Bool
  | .buildingInstruction _, .instruction => true
  | .attachingSignature built signature, .resume =>
    match worker, attachSignature s.libs built.unsigned signature with
    | some path, .ok signed =>
      (assertDerivedSender s.libs (pool.address path) signed.recoveredFrom).isOk
    | _, _ => false
  | _, _ => false

namespace Frame

section Ways

variable {f : Frame} {pc : Pc} {effects : List Effect}

/-- Releasing a lease starts nothing. -/
theorem idle_releaseLease (f : Frame) : Idle f.releaseLease.2 :=
  all_releaseLease fun _ => rfl

/-- Nor does the `finally` block. -/
theorem idle_finish (heffects : Idle effects) : Idle (f.finish pc effects).2 :=
  all_finish (fun _ => rfl) heffects

/-- With the controller aborted, `abortIfShuttingDown` throws. -/
theorem idle_proceed {before : List Effect} (haborted : f.aborted.isSome = true)
    (hbefore : Idle before) : Idle (f.proceed pc before effects).2 := by
  rw [proceed, if_pos haborted]
  exact idle_finish hbefore

/-- Nor does a build that failed. -/
theorem idle_buildFailed {job balance : Nat} {path : String} {e : JsError} :
    Idle (resumeLeased.buildFailed job path f balance e).2 := by
  unfold resumeLeased.buildFailed
  split
  · exact idle_finish rfl
  · exact idle_finish rfl

end Ways

/-- From `leasing` on. -/
theorem resumeLeased_idle_iff {s : Setup} {view : RunView} {job : Nat} {path : String} {f : Frame}
    {pc : Pc} {reply : Reply} {next : Frame × List Effect} (haborted : f.aborted.isSome = true)
    (h : f.resumeLeased s view job path pc reply = some next) :
    Idle next.2 ↔ pc.unchecked s view.pool (some path) reply = false := by
  cases resumeLeased_stretch h
  -- the checks
  case funded => exact iff_of_true (idle_proceed haborted rfl) rfl
  case built => exact iff_of_true (idle_proceed haborted rfl) rfl
  case nonceFailed => exact iff_of_true idle_buildFailed rfl
  case estimateFailed => exact iff_of_true idle_buildFailed rfl
  -- the instruction is built: the Solana send starts
  case instructed =>
    exact iff_of_false (by simp [Idle, await, Effect.startsWork]) (by simp [Pc.unchecked])
  -- the signature is attached: the broadcast starts if it is the worker's
  case unattached built signature e hattach =>
    exact iff_of_true (idle_finish rfl) (by simp [Pc.unchecked, hattach])
  case mismatched built signature signed hattach e hassert =>
    refine iff_of_true (idle_finish rfl) ?_
    simp [Pc.unchecked, hattach, hassert, Except.isOk, Except.toBool]
  case verified built signature signed hattach hassert =>
    refine iff_of_false (by simp [Idle, await, Effect.startsWork]) ?_
    simp [Pc.unchecked, hattach, hassert, Except.isOk, Except.toBool]
  case confirmed released effects hrel =>
    have heffects : Idle effects := by
      have hrelease := idle_releaseLease f
      rwa [hrel] at hrelease
    refine iff_of_true ?_ rfl
    show Idle ([_] ++ effects)
    exact Idle.append rfl heffects
  -- the other ways on suspend, return or throw
  all_goals
    refine iff_of_true ?_ rfl
    first
      | rfl
      | exact idle_finish rfl

/-- A job that has not asked for an address yet is at neither of the two `await`s. -/
theorem unchecked_of_idle {f : Frame} (h : f.tenure = .idle) (s : Setup) (pool : WorkerPool)
    (reply : Reply) : f.pc.unchecked s pool f.worker reply = false := by
  cases hpc : f.pc with
  | buildingInstruction | attachingSignature =>
    cases hworker : f.worker <;> simp [tenure, phase, hpc, hworker, Pc.stage, Stage.phase] at h
  | _ => rfl

/-- With its controller aborted a job starts nothing, short of the two `await`s. -/
theorem resume_idle_iff {s : Setup} {view : RunView} {job : Nat} {f : Frame} {reply : Reply}
    {next : Frame × List Effect} (haborted : f.aborted.isSome = true)
    (h : f.resume s view job reply = some next) :
    Idle next.2 ↔ f.pc.unchecked s view.pool f.worker reply = false := by
  cases resume_stretch h
  case asked hpc => exact iff_of_true (idle_proceed haborted rfl) (by rw [hpc]; rfl)
  case works path hworker h =>
    rw [‹f.worker = some _›]
    exact resumeLeased_idle_iff haborted h
  all_goals
    refine iff_of_true ?_ (by rw [‹f.pc = _›]; rfl)
    first
      | rfl
      | exact idle_finish rfl

end Frame

/-! ## The controller -/

namespace Frame

/-- The controller is on the list or has been aborted, for as long as the run goes on. -/
def Watched (f : Frame) : Prop :=
  f.pc.leg = .over ∨ f.listed = true ∨ f.aborted.isSome = true

/-- What a resumption does about the controller: nothing, or the `finally` block aborts it. -/
def Minds (f g : Frame) : Prop :=
  g.listed = f.listed ∧ g.aborted = f.aborted ∧ (f.pc.leg = .over → g.pc.leg = .over) ∨
    g.pc.leg = .over ∧ g.aborted.isSome = true

section Ways

variable {f g : Frame} {pc : Pc} {effects : List Effect}

/-- Going on leaves the controller alone. -/
theorem minds_await (hpc : f.pc.leg ≠ .over) : f.Minds (f.await pc effects).1 :=
  .inl ⟨rfl, rfl, fun hover => absurd hover hpc⟩

/-- Leaving aborts it. -/
theorem minds_finish (hpc : pc.leg = .over) : f.Minds (g.finish pc effects).1 := by
  refine .inr ⟨hpc, ?_⟩
  show (g.releaseLease.1.aborted <|> some abortError).isSome = true
  cases g.releaseLease.1.aborted <;> rfl

/-- Past a `throwIfAborted`, one or the other. -/
theorem minds_proceed {before : List Effect} (hpc : f.pc.leg ≠ .over) :
    f.Minds (f.proceed pc before effects).1 := by
  unfold proceed
  split
  · exact minds_finish rfl
  · exact minds_await hpc

/-- A build that failed leaves. -/
theorem minds_buildFailed {job balance : Nat} {path : String} {e : JsError} :
    f.Minds (resumeLeased.buildFailed job path f balance e).1 := by
  unfold resumeLeased.buildFailed
  split
  · exact minds_finish rfl
  · exact minds_finish rfl

end Ways

/-- From `leasing` on. -/
theorem resumeLeased_minds {s : Setup} {view : RunView} {job : Nat} {path : String} {f : Frame}
    {reply : Reply} {next : Frame × List Effect}
    (h : f.resumeLeased s view job path f.pc reply = some next) : f.Minds next.1 := by
  generalize hpc : f.pc = pc at h
  have hleg : f.pc.leg = pc.leg := by rw [hpc]
  cases resumeLeased_stretch h
  -- the preflight
  case poor => exact minds_finish rfl
  case funded => exact minds_proceed (by rw [hleg]; simp [Pc.leg])
  case balanceFailed => exact minds_finish rfl
  -- the build
  case nonceRead => exact minds_await (by rw [hleg]; simp [Pc.leg])
  case nonceFailed => exact minds_buildFailed
  case unaffordable => exact minds_finish rfl
  case built => exact minds_proceed (by rw [hleg]; simp [Pc.leg])
  case estimateFailed => exact minds_buildFailed
  -- the Solana send
  case instructed => exact minds_await (by rw [hleg]; simp [Pc.leg])
  case uninstructed => exact minds_finish rfl
  case requested => exact minds_await (by rw [hleg]; simp [Pc.leg])
  case unrequested => exact minds_finish rfl
  -- the signature
  case signed => exact minds_await (by rw [hleg]; simp [Pc.leg])
  case unsigned => exact minds_finish rfl
  case unattached => exact minds_finish rfl
  case mismatched => exact minds_finish rfl
  case verified => exact minds_await (by rw [hleg]; simp [Pc.leg])
  -- broadcast and confirmation
  case broadcast => exact minds_await (by rw [hleg]; simp [Pc.leg])
  case broadcastFailed => exact minds_finish rfl
  case confirmed released effects hrel =>
    have hkept : f.releaseLease.1.listed = f.listed ∧ f.releaseLease.1.aborted = f.aborted :=
      ⟨f.releaseLease_listed, f.releaseLease_aborted⟩
    rw [hrel] at hkept
    exact .inl ⟨hkept.1, hkept.2, by rw [hleg]; simp [Pc.leg]⟩
  case reverted => exact minds_finish rfl
  case unconfirmed => exact minds_finish rfl
  -- the respond
  case unexpected => exact minds_finish rfl
  case responded => exact minds_finish rfl
  case unresponded => exact minds_finish rfl

/-- Whatever an `await` is answered, the controller is minded. -/
theorem resume_minds {s : Setup} {view : RunView} {job : Nat} {f : Frame} {reply : Reply}
    {next : Frame × List Effect} (h : f.resume s view job reply = some next) :
    f.Minds next.1 := by
  cases resume_stretch h
  -- the `catch` of `start`
  case recorded => exact .inl ⟨rfl, rfl, fun _ => rfl⟩
  case works h => exact resumeLeased_minds h
  all_goals
    have hearly : f.pc.leg ≠ .over := by rw [‹f.pc = _›]; simp [Pc.leg]
    first
      | exact minds_finish rfl
      | exact minds_await hearly
      | exact minds_proceed hearly

/-- An aborted controller stays aborted. -/
theorem Minds.aborted {f g : Frame} (h : f.Minds g) (haborted : f.aborted.isSome = true) :
    g.aborted.isSome = true := by
  rcases h with ⟨_, hsame, _⟩ | ⟨_, hsome⟩
  · rw [hsame]
    exact haborted
  · exact hsome

/-- So a controller that is watched stays watched. -/
theorem Minds.watched {f g : Frame} (h : f.Minds g) (hwatched : f.Watched) : g.Watched := by
  rcases h with ⟨hlisted, haborted, hover⟩ | ⟨hover, _⟩
  · rw [Watched, hlisted, haborted]
    exact hwatched.imp_left hover
  · exact .inl hover

/-- Aborting aborts, whatever was there before. -/
theorem abort_aborted (f : Frame) (reason : JsError) : (f.abort reason).aborted.isSome = true := by
  show (f.aborted <|> some reason).isSome = true
  cases f.aborted <;> rfl

end Frame

namespace World

/-- In every reachable state, the controllers are watched. -/
theorem watched_reachable {s : Setup} {start : Millis} {w : World}
    (h : Reachable (step s) (World.new s start) w) {job : Nat} {f : Frame}
    (hf : w.frames[job]? = some f) : f.Watched := by
  suffices hall : ∀ (job : Nat) (f : Frame), w.frames[job]? = some f → f.Watched from hall job f hf
  refine h.invariant (I := fun w => ∀ (job : Nat) (f : Frame), w.frames[job]? = some f →
    f.Watched) (fun job f hf => by cases hf) ?_
  intro w a w' hinv _ hstep job f' hf'
  cases step_job hstep job with
  | absent _ hafter _ _ =>
    rw [hafter] at hf'
    cases hf'
  | accepted f _ _ _ hafter hfresh _ =>
    obtain rfl := Option.some.inj (hafter.symm.trans hf')
    cases hfresh with
    | running _ _ _ heq =>
      -- accepted while the server runs: it is on the list
      rw [heq]
      exact .inr (.inl rfl)
    | rejected _ _ heq =>
      rw [heq]
      -- accepted too late: it is over
      exact .inl rfl
  | resumed _ f g _ _ hbefore hafter hresume _ _ =>
    obtain rfl := Option.some.inj (hafter.symm.trans hf')
    exact (Frame.resume_minds hresume).watched (hinv job f hbefore)
  | stays f hbefore hafter _ _ _ =>
    obtain rfl := Option.some.inj (hafter.symm.trans hf')
    exact hinv job f hbefore
  | deadline f _ _ _ hafter _ =>
    obtain rfl := Option.some.inj (hafter.symm.trans hf')
    exact .inr (.inr (f.abort_aborted _))
  | aborted f _ _ _ hafter _ =>
    obtain rfl := Option.some.inj (hafter.symm.trans hf')
    exact .inr (.inr (f.abort_aborted _))

/-! ## After the shutdown -/

/-- The run of the job has not ended. -/
def InFlight (w : World) (job : Nat) : Prop :=
  ∃ f : Frame, w.frames[job]? = some f ∧ f.pc.leg ≠ .over

/-- None of the jobs in flight at `w₀` has started an operation since, or been granted an
    address. -/
def Quiet (w₀ w : World) : Prop :=
  ∀ job, w₀.InFlight job → Idle ((w.callsOf job).drop (w₀.callsOf job).length) ∧
    ∀ path, (job, .resolved path) ∈ w.pool.settled → (job, .resolved path) ∈ w₀.pool.settled

/-- The step takes no job that was in flight at `w₀` out of an `await` that no check follows,
    with success. -/
def Covered (s : Setup) (w₀ w : World) (a : Action) : Prop :=
  ∀ job reply f, a = .resume job reply → w₀.InFlight job → w.frames[job]? = some f →
    f.pc.unchecked s w.pool f.worker reply = false

/-- What holds of the jobs in flight at `w₀` ever since `abortActiveJobs` ran. -/
structure Aborted (s : Setup) (start : Millis) (w₀ w : World) : Prop where
  reachable : Reachable (step s) (World.new s start) w
  aborted : ∀ job, w₀.InFlight job → ∃ f : Frame, w.frames[job]? = some f ∧
    f.aborted.isSome = true
  dequeued : ∀ job, w₀.InFlight job → job ∉ w.pool.waiters
  calls : ∀ job, w₀.callsOf job <+: w.callsOf job

section Aborted

variable {s : Setup} {start : Millis} {w₀ w w' : World} {a : Action}

/-- `abortActiveJobs` aborts the controller of every job in flight, and empties the queue. -/
theorem aborted_abortActiveJobs (h : Reachable (step s) (World.new s start) w₀) :
    Aborted s start w₀ w₀.abortActiveJobs where
  reachable := .tail .abortActiveJobs h trivial rfl
  aborted := by
    intro job hflight
    obtain ⟨f, hf, hrun⟩ := hflight
    have hframe : w₀.abortActiveJobs.frames[job]? = w₀.frames[job]?.map fun f =>
        if f.listed then { f.abort abortError with listed := false } else f :=
      List.getElem?_map
    rw [hf, Option.map_some] at hframe
    refine ⟨_, hframe, ?_⟩
    split
    · exact f.abort_aborted abortError
    · rename_i hlisted
      -- not on the list, and still in flight: it had been aborted before
      rcases watched_reachable h hf with hover | hlist | haborted
      · exact absurd hover hrun
      · exact absurd hlist hlisted
      · exact haborted
  dequeued := by
    intro job _
    rw [abortActiveJobs_pool, WorkerPool.rejectWaiters_waiters]
    exact List.not_mem_nil
  calls job := by
    rw [callsOf_congr (abortActiveJobs_calls w₀)]

/-- No step adds to the past calls of a job, or takes any back. -/
theorem callsOf_extends (hstep : step s w a = some w') (job : Nat) :
    w.callsOf job <+: w'.callsOf job := by
  cases step_job hstep job with
  | resumed _ _ _ effects _ _ _ _ _ hcalls =>
    rw [hcalls]
    exact List.prefix_append _ _
  | absent _ _ _ hcalls | accepted _ _ _ _ _ _ hcalls | stays _ _ _ _ _ hcalls
  | deadline _ _ _ _ _ hcalls | aborted _ _ _ _ _ hcalls => rw [hcalls]

/-- A job whose controller has been aborted does not ask for an address. -/
theorem Aborted.not_asks (h : Aborted s start w₀ w) (hstep : step s w a = some w') {job : Nat}
    (hflight : w₀.InFlight job) : ¬ w.Asks w' job := by
  rintro ⟨asked, hasked, hmem⟩
  have hsame : w'.callsOf job ≠ w.callsOf job := by
    intro hcalls
    exact not_asks_of_callsOf hcalls ⟨asked, hasked, hmem⟩
  obtain ⟨f, hf, haborted⟩ := h.aborted job hflight
  have hleases := leaseInv_reachable h.reachable
  cases step_job hstep job with
  | resumed reply g g' effects _ hbefore _ hresume _ hcalls =>
    obtain rfl := Option.some.inj (hbefore.symm.trans hf)
    rw [hcalls, List.append_cancel_left_eq] at hasked
    subst hasked
    -- an aborted job checks before it asks, so the step starts nothing
    have hwf := hleases.wf g (List.mem_of_getElem? hbefore)
    obtain ⟨_, hidle, _⟩ := Frame.resume_asks hwf hresume hmem
    have hnothing := (Frame.resume_idle_iff haborted hresume).mpr
      (Frame.unchecked_of_idle hidle s _ reply)
    have hno := List.all_eq_true.mp hnothing _ hmem
    cases hno
  | absent _ _ _ hcalls | accepted _ _ _ _ _ _ hcalls | stays _ _ _ _ _ hcalls
  | deadline _ _ _ _ _ hcalls | aborted _ _ _ _ _ hcalls => exact hsame hcalls

/-- The jobs in flight at the shutdown stay aborted and off the queue. -/
theorem Aborted.step (h : Aborted s start w₀ w) (hstep : step s w a = some w') :
    Aborted s start w₀ w' := by
  have hleases := leaseInv_reachable h.reachable
  refine ⟨.tail a h.reachable trivial hstep, fun job hflight => ?_, fun job hflight => ?_,
    fun job => (h.calls job).trans (callsOf_extends hstep job)⟩
  · obtain ⟨f, hf, haborted⟩ := h.aborted job hflight
    cases step_job hstep job with
    | absent hbefore _ _ _ => simp [hbefore] at hf
    | accepted _ _ _ hid _ _ _ => simp [hid] at hf
    | resumed _ g g' _ _ hbefore hafter hresume _ _ =>
      obtain rfl := Option.some.inj (hbefore.symm.trans hf)
      -- the signal is never withdrawn
      exact ⟨g', hafter, (Frame.resume_minds hresume).aborted haborted⟩
    | stays g hbefore hafter _ _ _ =>
      obtain rfl := Option.some.inj (hbefore.symm.trans hf)
      exact ⟨g, hafter, haborted⟩
    | deadline g _ _ _ hafter _ => exact ⟨_, hafter, g.abort_aborted _⟩
    | aborted g _ _ _ hafter _ => exact ⟨_, hafter, g.abort_aborted _⟩
  · exact (step_unasked hleases hstep (h.dequeued job hflight) (h.not_asks hstep hflight)).1

/-- From a quiet state, a step leads to a quiet one exactly when it is covered. -/
theorem quiet_step_iff (h : Aborted s start w₀ w) (hquiet : Quiet w₀ w)
    (hstep : step s w a = some w') : Quiet w₀ w' ↔ Covered s w₀ w a := by
  have hleases := leaseInv_reachable h.reachable
  -- what is granted was granted before
  have hgrants : ∀ job, w₀.InFlight job → ∀ path, (job, .resolved path) ∈ w'.pool.settled →
      (job, .resolved path) ∈ w₀.pool.settled := by
    intro job hflight path hmem
    have hunasked := step_unasked hleases hstep (h.dequeued job hflight) (h.not_asks hstep hflight)
    exact (hquiet job hflight).2 path ((hunasked.2 _).mp hmem)
  -- the calls since the shutdown are those up to now and those of the step
  have hidle : ∀ job, w₀.InFlight job → ∀ effects, w'.callsOf job = w.callsOf job ++ effects →
      (Idle ((w'.callsOf job).drop (w₀.callsOf job).length) ↔ Idle effects) := by
    intro job hflight effects hcalls
    rw [hcalls, List.drop_append_of_le_length (h.calls job).length_le]
    exact idle_append_iff (hquiet job hflight).1
  constructor
  · intro hafter job reply f ha hflight hf
    subst ha
    cases step_job hstep job with
    | resumed reply' g g' effects hsame hbefore _ hresume _ hcalls =>
      cases hsame
      obtain rfl := Option.some.inj (hbefore.symm.trans hf)
      obtain ⟨g, hg, haborted⟩ := h.aborted job hflight
      obtain rfl := Option.some.inj (hg.symm.trans hf)
      exact (Frame.resume_idle_iff haborted hresume).mp
        ((hidle job hflight effects hcalls).mp (hafter job hflight).1)
    | absent _ _ hother _ => exact absurd rfl hother
    | stays _ _ _ hother _ _ => exact absurd rfl hother
    | accepted _ _ hstart _ _ _ _ => cases hstart
    | deadline _ hdeadline _ _ _ _ => cases hdeadline
    | aborted _ habort _ _ _ _ => cases habort
  · intro hcovered job hflight
    refine ⟨?_, hgrants job hflight⟩
    cases step_job hstep job with
    | resumed reply g g' effects ha hbefore _ hresume _ hcalls =>
      obtain ⟨f, hf, haborted⟩ := h.aborted job hflight
      obtain rfl := Option.some.inj (hf.symm.trans hbefore)
      rw [hidle job hflight effects hcalls, Frame.resume_idle_iff haborted hresume]
      exact hcovered job reply f ha hflight hf
    | absent _ _ _ hcalls | accepted _ _ _ _ _ _ hcalls | stays _ _ _ _ _ hcalls
    | deadline _ _ _ _ _ hcalls | aborted _ _ _ _ _ hcalls =>
      rw [hidle job hflight [] (by rw [hcalls, List.append_nil])]
      rfl

end Aborted

/-- When `abortActiveJobs` has just run, nothing has been started since. -/
theorem quiet_abortActiveJobs (w₀ : World) : Quiet w₀ w₀.abortActiveJobs := by
  intro job _
  refine ⟨?_, fun path hmem => ?_⟩
  · rw [callsOf_congr (abortActiveJobs_calls w₀), List.drop_length]
    rfl
  · -- whoever was still queued has been rejected
    refine WorkerPool.rejectWaiters_invariant (fun pool => ∀ call path,
      (call, .resolved path) ∈ pool.settled → (call, .resolved path) ∈ w₀.pool.settled)
      w₀.pool _ (fun _ _ hold => hold) ?_ job path hmem
    intro pool call rest hpool _ call' path' hnew
    rw [WorkerPool.settleWaiter_settled] at hnew
    rcases List.mem_append.mp hnew with hold | hlast
    · exact hpool call' path' hold
    · simp at hlast

/-- Of whatever happens after `abortActiveJobs`, nothing is started by a job that was in flight
    when it ran exactly when no such job leaves one of the two `await`s with success. -/
theorem quiet_iff {s : Setup} {start : Millis} {w₀ : World}
    (h : Reachable (step s) (World.new s start) w₀) (as : List Action) :
    Always (step s) (Quiet w₀) w₀.abortActiveJobs as ↔
      Along (step s) (Covered s w₀) w₀.abortActiveJobs as :=
  always_iff_along_of (J := Aborted s start w₀) (fun _ _ _ hj hstep => hj.step hstep)
    (fun _ _ _ hj hquiet hstep => quiet_step_iff hj hquiet hstep) as (aborted_abortActiveJobs h)
    (quiet_abortActiveJobs w₀)

/-- The service after so many actions of a run to the end. -/
def respondedRunAt (n : Nat) : World :=
  (exec (step sampleSetup) (World.new sampleSetup 0) (respondedRun.take n)).getD
    (World.new sampleSetup 0)

/-- A job whose balance is being read is stopped at the check behind it. -/
theorem quiet_after_balance :
    Always (step sampleSetup) (Quiet (respondedRunAt 7)) (respondedRunAt 7).abortActiveJobs
        [.resume 0 (.balance 10000000000000000)] ∧
      (respondedRunAt 7).InFlight 0 := by
  have hexec : exec (step sampleSetup) (World.new sampleSetup 0) (respondedRun.take 7) =
      some (respondedRunAt 7) := exec_getD (by decide +kernel) _
  refine ⟨(quiet_iff (reachable_of_exec hexec) _).mpr ?_, ⟨_, rfl, by decide +kernel⟩⟩
  intro w' _
  refine ⟨?_, trivial⟩
  intro job reply f ha _ hf
  cases ha
  have hconcrete : ((respondedRunAt 7).abortActiveJobs.frames[0]?.map fun f =>
      f.pc.unchecked sampleSetup (respondedRunAt 7).abortActiveJobs.pool f.worker
        (.balance 10000000000000000)) = some false := by
    decide +kernel
  rw [hf] at hconcrete
  exact Option.some.inj hconcrete

/-! ## The two gaps -/

/-- `waitForEvent` rejects when its signal is aborted: the signature wait of a job whose
    controller has been aborted is not answered with a signature. -/
def HonoursAbort (w : World) (a : Action) : Prop :=
  ∀ job signature f, a = .resume job (.rsv signature) → w.frames[job]? = some f →
    f.aborted = none

end World

/-- The two `await`s behind the last check before an operation. -/
def Pc.behindCheck : Pc → Bool
  | .buildingInstruction _ => true
  | .attachingSignature _ _ => true
  | _ => false

/-- An `await` that a check follows is not one of the two without. -/
theorem Pc.unchecked_eq_false {s : Setup} {pool : WorkerPool} {worker : Option String} {pc : Pc}
    (h : pc.behindCheck = false) (reply : Reply) : pc.unchecked s pool worker reply = false := by
  cases pc with
  | buildingInstruction | attachingSignature => cases h
  | _ => rfl

namespace Frame

/-- With the controller aborted, `abortIfShuttingDown` throws. -/
theorem proceed_pc {f : Frame} {pc : Pc} {before after : List Effect}
    (haborted : f.aborted.isSome = true) :
    (f.proceed pc before after).1.pc = .rejected .shutdown := by
  rw [proceed, if_pos haborted]
  rfl

/-- From `leasing` on. -/
theorem resumeLeased_behindCheck {s : Setup} {view : RunView} {job : Nat} {path : String}
    {f : Frame} {pc : Pc} {reply : Reply} {next : Frame × List Effect}
    (haborted : f.aborted.isSome = true) (hreply : ∀ signature, reply ≠ .rsv signature)
    (h : f.resumeLeased s view job path pc reply = some next) :
    next.1.pc.behindCheck = false := by
  have hfailed : ∀ balance e,
      (resumeLeased.buildFailed job path f balance e).1.pc.behindCheck = false := by
    intro balance e
    unfold resumeLeased.buildFailed
    split <;> rfl
  cases resumeLeased_stretch h
  -- aborted, it does not get past the check
  case funded => rw [proceed_pc haborted]; rfl
  case nonceFailed => exact hfailed _ _
  case built => rw [proceed_pc haborted]; rfl
  case estimateFailed => exact hfailed _ _
  case signed built signature => exact absurd rfl (hreply signature)
  all_goals rfl

/-- With its controller aborted and no signature, a job does not get behind a check. -/
theorem resume_behindCheck {s : Setup} {view : RunView} {job : Nat} {f : Frame} {reply : Reply}
    {next : Frame × List Effect} (haborted : f.aborted.isSome = true)
    (hreply : ∀ signature, reply ≠ .rsv signature)
    (h : f.resume s view job reply = some next) : next.1.pc.behindCheck = false := by
  cases resume_stretch h
  case asked => rw [proceed_pc haborted]; rfl
  case works h => exact resumeLeased_behindCheck haborted hreply h
  all_goals rfl

end Frame

namespace World

/-- When `abortActiveJobs` finds no job at the two `await`s, nothing is started after it. -/
theorem quiet_outside_gaps {s : Setup} {start : Millis} {w₀ : World}
    (h : Reachable (step s) (World.new s start) w₀)
    (hgaps : ∀ f ∈ w₀.frames, f.pc.behindCheck = false) {as : List Action}
    (has : Along (step s) HonoursAbort w₀.abortActiveJobs as) :
    Always (step s) (fun w => Aborted s start w₀ w ∧ Quiet w₀ w ∧
      ∀ job f, w₀.InFlight job → w.frames[job]? = some f → f.pc.behindCheck = false)
      w₀.abortActiveJobs as := by
  refine has.always ⟨aborted_abortActiveJobs h, quiet_abortActiveJobs w₀, ?_⟩ ?_
  · intro job f _ hf
    -- aborting moves no job, so the gaps are the same as before
    have hpcs : w₀.abortActiveJobs.frames.map Frame.pc = w₀.frames.map Frame.pc :=
      abortActiveJobs_map w₀ Frame.pc fun _ => rfl
    have hmem : f.pc ∈ w₀.frames.map Frame.pc :=
      hpcs ▸ List.mem_map_of_mem (List.mem_of_getElem? hf)
    obtain ⟨g, hg, hpc⟩ := List.mem_map.mp hmem
    rw [← hpc]
    exact hgaps g hg
  · intro w a w' hinv hhonours hstep
    obtain ⟨haborted, hquiet, hchecked⟩ := hinv
    have hcovered : Covered s w₀ w a := fun job reply f _ hflight hf =>
      Pc.unchecked_eq_false (hchecked job f hflight hf) reply
    refine ⟨haborted.step hstep, (quiet_step_iff haborted hquiet hstep).mpr hcovered, ?_⟩
    intro job f' hflight hf'
    obtain ⟨f, hf, hsome⟩ := haborted.aborted job hflight
    cases step_job hstep job with
    | absent hbefore _ _ _ => simp [hbefore] at hf
    | accepted _ _ _ hid _ _ _ => simp [hid] at hf
    | resumed reply g g' effects ha hbefore hafter hresume _ _ =>
      obtain rfl := Option.some.inj (hbefore.symm.trans hf)
      obtain rfl := Option.some.inj (hafter.symm.trans hf')
      refine Frame.resume_behindCheck hsome ?_ hresume
      -- an aborted job's signature does not come, so it does not get behind the check
      rintro signature rfl
      rw [hhonours job signature g ha hbefore] at hsome
      cases hsome
    | stays g hbefore hafter _ _ _ =>
      obtain rfl := Option.some.inj (hafter.symm.trans hf')
      exact hchecked job g hflight hbefore
    | deadline g _ hbefore _ hafter _ =>
      obtain rfl := Option.some.inj (hafter.symm.trans hf')
      exact hchecked job g hflight hbefore
    | aborted g _ hbefore _ hafter _ =>
      obtain rfl := Option.some.inj (hafter.symm.trans hf')
      exact hchecked job g hflight hbefore

/-- A step in which a job in flight starts an operation leaves the service unquiet. -/
private theorem not_always_quiet {s : Setup} {w₀ w' : World} {a : Action} (job : Nat)
    (hflight : w₀.InFlight job) (hstep : step s w₀.abortActiveJobs a = some w')
    (hcall : ((w'.callsOf job).drop (w₀.callsOf job).length).any Effect.startsWork = true) :
    ¬ Always (step s) (Quiet w₀) w₀.abortActiveJobs [a] := by
  intro halways
  have hidle : Idle ((w'.callsOf job).drop (w₀.callsOf job).length) :=
    ((halways.2 w' hstep) job hflight).1
  obtain ⟨effect, hmem, hstarts⟩ := List.any_eq_true.mp hcall
  have hno := List.all_eq_true.mp hidle effect hmem
  rw [hstarts] at hno
  cases hno

/-- A job that the shutdown finds building its instruction goes on to send to Solana; one that
    it finds attaching its signature goes on to broadcast. -/
theorem shutdown_still_sends :
    (Reachable (step sampleSetup) (World.new sampleSetup 0) (respondedRunAt 11) ∧
      Along (step sampleSetup) HonoursAbort (respondedRunAt 11).abortActiveJobs
        [.resume 0 .instruction] ∧
      ¬ Always (step sampleSetup) (Quiet (respondedRunAt 11)) (respondedRunAt 11).abortActiveJobs
        [.resume 0 .instruction]) ∧
    (Reachable (step sampleSetup) (World.new sampleSetup 0) (respondedRunAt 15) ∧
      Along (step sampleSetup) HonoursAbort (respondedRunAt 15).abortActiveJobs
        [.resume 0 .resume] ∧
      ¬ Always (step sampleSetup) (Quiet (respondedRunAt 15)) (respondedRunAt 15).abortActiveJobs
        [.resume 0 .resume]) := by
  have hreach : ∀ n, (exec (step sampleSetup) (World.new sampleSetup 0)
      (respondedRun.take n)).isSome = true →
      Reachable (step sampleSetup) (World.new sampleSetup 0) (respondedRunAt n) :=
    fun n hn => reachable_of_exec (exec_getD hn _)
  -- neither run is answered with a signature after the abort
  have hhonours : ∀ reply, (∀ signature, reply ≠ .rsv signature) → ∀ w,
      Along (step sampleSetup) HonoursAbort w [.resume 0 reply] := by
    intro reply hreply w w' _
    refine ⟨fun job signature f ha _ => ?_, trivial⟩
    cases ha
    exact absurd rfl (hreply signature)
  refine ⟨⟨hreach 11 (by decide +kernel), ?_, ?_⟩, ⟨hreach 15 (by decide +kernel), ?_, ?_⟩⟩
  · exact hhonours _ (by simp) _
  · exact not_always_quiet 0 ⟨_, rfl, by decide +kernel⟩ rfl (by decide +kernel)
  · exact hhonours _ (by simp) _
  · exact not_always_quiet 0 ⟨_, rfl, by decide +kernel⟩ rfl (by decide +kernel)

end World

end ContractPinger
