import ContractPinger.Spec.FailureRecords
import ContractPinger.Spec.Promises
import ContractPinger.Spec.ShutdownReasons

/-!
# Jobs that got no address

A job is failed for want of an address only if the pool has told it that there is none: the
`catch` of `start` records what `run()` rejected with, and only the pool makes a
`NoWorkerAvailableError`.

## Key results

- `Frame.resume_refused`: where such an error comes from, in one resumption
- `refused_of_record`: a record that names the refusal is of a job that was refused
-/

namespace ContractPinger

open Machine

/-- The failure that `start` records for a refusal of the pool. -/
def NoWorkerReason.failure (reason : NoWorkerReason) : FailureReason :=
  (JobError.noWorkerAvailable reason).failureReason

namespace Frame

variable {s : Setup} {view : RunView} {job : Nat} {f : Frame} {reply : Reply}
  {next : Frame × List Effect} {reason : NoWorkerReason}

/-- The failures of the calls, all of them others than for want of an address. -/
def Otherwise (effects : List Effect) : Prop :=
  (failures effects).all (fun named =>
    named != .allWorkersBusy && named != .allWorkersUnderfunded) = true

/-- Failures that are others are not this one. -/
theorem Otherwise.not_mem {effects : List Effect} (h : Otherwise effects) :
    reason.failure ∉ failures effects := by
  intro hmem
  have hnamed := List.all_eq_true.mp h _ hmem
  revert hnamed
  cases reason <;> decide

/-- The code neither rejects for want of an address nor fails a job for it. -/
def Unrefused (reason : NoWorkerReason) (next : Frame × List Effect) : Prop :=
  next.1.pc ≠ .rejected (.noWorkerAvailable reason) ∧ reason.failure ∉ failures next.2

/-- Going on to an `await`. -/
theorem unrefused_await {g : Frame} {pc : Pc} {effects : List Effect}
    (hpc : pc ≠ .rejected (.noWorkerAvailable reason)) (heffects : Otherwise effects) :
    Unrefused reason (g.await pc effects) :=
  ⟨hpc, heffects.not_mem⟩

/-- Leaving with another failure, or none. -/
theorem unrefused_finish {g : Frame} {pc : Pc} {effects : List Effect}
    (hpc : pc ≠ .rejected (.noWorkerAvailable reason)) (heffects : Otherwise effects) :
    Unrefused reason (g.finish pc effects) := by
  refine ⟨hpc, ?_⟩
  rw [failures_finish]
  exact heffects.not_mem

/-- Past a `throwIfAborted`. -/
theorem unrefused_proceed {g : Frame} {pc : Pc} {before after : List Effect}
    (hpc : pc ≠ .rejected (.noWorkerAvailable reason)) (hbefore : Otherwise before)
    (hafter : Otherwise (before ++ after)) : Unrefused reason (g.proceed pc before after) := by
  unfold proceed
  split
  · exact unrefused_finish (by simp) hbefore
  · exact unrefused_await hpc hafter

/-- With an address, nothing is refused any more. -/
theorem resumeLeased_unrefused {path : String} {pc : Pc}
    (h : f.resumeLeased s view job path pc reply = some next) : Unrefused reason next := by
  cases resumeLeased_stretch h
  case funded => exact unrefused_proceed (by simp) rfl rfl
  case built => exact unrefused_proceed (by simp) rfl rfl
  case nonceFailed | estimateFailed =>
    unfold resumeLeased.buildFailed
    split
    · exact unrefused_finish (by simp) rfl
    · exact unrefused_finish (by simp) rfl
  case confirmed released effects hrel =>
    have heffects : effects = f.releaseLease.2 := by rw [hrel]
    let confirm := Effect.update job
      { state := some .confirmed, timings := { confirmedAt := some view.now } }
    refine ⟨by simp, ?_⟩
    show reason.failure ∉ failures ([confirm] ++ effects)
    rw [heffects, failures_append, failures_releaseLease, List.append_nil]
    exact Otherwise.not_mem (show Otherwise [confirm] from rfl)
  -- the other ways on suspend, return or throw
  all_goals first
    | exact unrefused_await (by simp) rfl
    | exact unrefused_finish (by simp) rfl

/-- The error is what the promise of `acquireWithin` rejected with, and it is recorded when the
    run has rejected with it. -/
theorem resume_refused (h : f.resume s view job reply = some next) :
    (next.1.pc = .rejected (.noWorkerAvailable reason) →
      view.pool.settlement job = some (.rejected (.noWorkerAvailable reason))) ∧
    (reason.failure ∈ failures next.2 → f.pc = .rejected (.noWorkerAvailable reason)) := by
  have hunrefused : Unrefused reason next →
      (next.1.pc = .rejected (.noWorkerAvailable reason) →
        view.pool.settlement job = some (.rejected (.noWorkerAvailable reason))) ∧
      (reason.failure ∈ failures next.2 → f.pc = .rejected (.noWorkerAvailable reason)) :=
    fun hnot => ⟨fun hpc => absurd hpc hnot.1, fun hmem => absurd hmem hnot.2⟩
  cases resume_stretch h
  case asked => exact hunrefused (unrefused_proceed (by simp) rfl rfl)
  case refused hpc e hsettled =>
    refine ⟨fun hpc => ?_, fun hmem => ?_⟩
    · obtain rfl : e = .noWorkerAvailable reason := Pc.rejected.inj hpc
      exact hsettled
    · rw [throws, failures_finish] at hmem
      cases hmem
  case recorded e hpc =>
    refine ⟨fun hpc => (by cases hpc), fun hmem => ?_⟩
    -- no other error is recorded like this one
    have hsame : reason.failure = e.failureReason := List.mem_singleton.mp hmem
    rw [hpc]
    revert hsame
    cases e with
    | noWorkerAvailable other =>
      cases reason <;> cases other <;> simp [NoWorkerReason.failure, JobError.failureReason]
    | _ => cases reason <;> simp [NoWorkerReason.failure, JobError.failureReason]
  case works h => exact hunrefused (resumeLeased_unrefused h)
  all_goals first
    | exact hunrefused (unrefused_await (by simp) rfl)
    | exact hunrefused (unrefused_finish (by simp) rfl)

end Frame

namespace World

variable {s : Setup} {w w' : World} {a : Action} {start : Millis}

/-- A job that has rejected or failed for want of an address was refused one. -/
def RefusedInv (w : World) : Prop :=
  ∀ (job : Nat) (f : Frame) (reason : NoWorkerReason), w.frames[job]? = some f →
    (f.pc = .rejected (.noWorkerAvailable reason) ∨
      reason.failure ∈ failures (w.callsOf job)) →
    (job, .rejected (.noWorkerAvailable reason)) ∈ w.pool.settled

/-- A step names the refusal only of a job that was refused. -/
theorem refusedInv_step (hreach : Reachable (step s) (World.new s start) w) (h : w.RefusedInv)
    (hstep : step s w a = some w') : w'.RefusedInv := by
  intro job f' reason hf' hrefused
  have hleases := leaseInv_reachable hreach
  -- what is settled stays settled
  have hsettled := (step_advances hleases hstep).settled.subset
  have hsame : ∀ f : Frame, w.frames[job]? = some f → f'.pc = f.pc →
      w'.callsOf job = w.callsOf job →
      (job, .rejected (.noWorkerAvailable reason)) ∈ w'.pool.settled := by
    intro f hf hpc hcalls
    rw [hpc, hcalls] at hrefused
    exact hsettled (h job f reason hf hrefused)
  cases step_job hstep job with
  | absent _ hafter _ _ => cases hf'.symm.trans hafter
  | accepted f _ _ hid hafter hfresh hcalls =>
    obtain rfl : f = f' := Option.some.inj (hafter.symm.trans hf')
    rw [hcalls, callsOf_unaccepted hreach (hid ▸ List.getElem?_eq_none (Nat.le_refl _))]
      at hrefused
    rcases hrefused with hpc | hmem
    · cases hfresh with
      | running _ _ _ heq =>
        rw [heq] at hpc
        cases hpc
      | rejected _ _ heq =>
        rw [heq] at hpc
        cases hpc
    · cases hmem
  | resumed reply f g effects _ hbefore hafter hresume _ hcalls =>
    obtain rfl : g = f' := Option.some.inj (hafter.symm.trans hf')
    obtain ⟨htold, hrecorded⟩ := Frame.resume_refused hresume
    rcases hrefused with hpc | hmem
    · have hnodup := hleases.ledger.calls_nodup.of_append_right
      exact hsettled ((List.lookup_eq_some_iff_mem hnodup).mp (htold hpc))
    · rw [hcalls, failures_append, List.mem_append] at hmem
      rcases hmem with hold | hnew
      · exact hsettled (h job f reason hbefore (.inr hold))
      · exact hsettled (h job f reason hbefore (.inl (hrecorded hnew)))
  | stays f hbefore hafter _ _ hcalls =>
    obtain rfl : f = f' := Option.some.inj (hafter.symm.trans hf')
    exact hsame f hbefore rfl hcalls
  | deadline f _ hbefore _ hafter hcalls =>
    obtain rfl := Option.some.inj (hafter.symm.trans hf')
    exact hsame f hbefore rfl hcalls
  | aborted f _ hbefore _ hafter hcalls =>
    obtain rfl := Option.some.inj (hafter.symm.trans hf')
    exact hsame f hbefore rfl hcalls

/-- A job that names a refusal was refused, in every reachable state. -/
theorem refusedInv_reachable (h : Reachable (step s) (World.new s start) w) : w.RefusedInv :=
  h.invariant' (fun _ _ _ hf => by cases hf) fun _ _ _ hreach hinv _ hstep =>
    refusedInv_step hreach hinv hstep

/-- A record that names a refusal is of a job that was refused. -/
theorem refused_of_record (h : Reachable (step s) (World.new s start) w) {r : JobRecord}
    (hr : r ∈ w.jobs.jobs) {reason : NoWorkerReason}
    (hreason : r.failureReason = some reason.failure) :
    (r.id, .rejected (.noWorkerAvailable reason)) ∈ w.pool.settled := by
  obtain ⟨f, hf, _⟩ := (jobsInv_reachable h).tracks r hr
  rw [failuresRecorded_reachable h r hr] at hreason
  exact refusedInv_reachable h r.id f reason hf (.inr (List.mem_of_getLast? hreason))

end World

end ContractPinger
