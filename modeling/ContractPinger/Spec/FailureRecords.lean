import ContractPinger.Spec.JobSteps

/-!
# The recorded failure

A record names the failure its job was last failed with: the calls of a job and its record tell
the same story, for as long as the record is kept.

## Key results

- `failuresRecorded_reachable`: in every reachable state, for every record
-/

namespace ContractPinger

open Machine

/-- The failure a call records. -/
def Effect.failure? : Effect → Option FailureReason
  | .fail _ reason _ => some reason
  | .update _ patch => patch.failureReason
  | _ => none

/-- The failures a job has been failed with, in order. -/
def failures (calls : List Effect) : List FailureReason := calls.filterMap Effect.failure?

@[simp] theorem failures_append (calls effects : List Effect) :
    failures (calls ++ effects) = failures calls ++ failures effects :=
  List.filterMap_append

/-- The failure of a call is that of its patch, at whatever instant. -/
theorem Effect.failure?_eq (now : Millis) (effect : Effect) :
    effect.failure? = (effect.patch? now).bind fun entry => entry.2.failureReason := by
  cases effect <;> rfl

/-- The failures of a stretch of code are those of its patches. -/
theorem failures_eq_patches {now : Millis} {job : Nat} {effects : List Effect}
    {ps : List JobPatch} (h : patches now effects = ps.map (Prod.mk job)) :
    failures effects = ps.filterMap JobPatch.failureReason := by
  have hbind : failures effects =
      (patches now effects).filterMap fun entry => entry.2.failureReason := by
    rw [patches, List.filterMap_filterMap]
    exact List.filterMap_congr fun effect _ => effect.failure?_eq now
  rw [hbind, h, List.filterMap_map]
  rfl

/-- After patches a record names the last failure among them, if there is one. -/
theorem foldl_failureReason (ps : List JobPatch) (r : JobRecord) :
    (ps.foldl JobRecord.apply r).failureReason =
      (ps.filterMap JobPatch.failureReason).getLast?.or r.failureReason := by
  induction ps generalizing r with
  | nil => rfl
  | cons p rest ih =>
    rw [List.foldl_cons, ih]
    -- a patch that names no failure leaves the one there is
    cases hfailure : p.failureReason with
    | none =>
      rw [List.filterMap_cons_none hfailure]
      simp [JobRecord.apply, hfailure]
    | some reason =>
      rw [List.filterMap_cons_some hfailure, List.getLast?_cons]
      cases hlast : (rest.filterMap JobPatch.failureReason).getLast? <;>
        simp [JobRecord.apply, hfailure]

namespace World

/-- Every record names the failure its job was last failed with. -/
def FailuresRecorded (w : World) : Prop :=
  ∀ r ∈ w.jobs.jobs, r.failureReason = (failures (w.callsOf r.id)).getLast?

/-- Only a resumed job makes calls. -/
theorem callsOf_of_not_resumed {s : Setup} {w w' : World} {a : Action}
    (hstep : step s w a = some w') (h : ∀ job reply, a ≠ .resume job reply) (job : Nat) :
    w'.callsOf job = w.callsOf job := by
  cases step_job hstep job with
  | resumed reply _ _ _ hresumed _ _ _ _ _ => exact absurd hresumed (h job reply)
  | absent _ _ _ hcalls | accepted _ _ _ _ _ _ hcalls | stays _ _ _ _ _ hcalls
  | deadline _ _ _ _ _ hcalls | aborted _ _ _ _ _ hcalls => exact hcalls

/-- A job that has not been accepted yet has made no call. -/
theorem callsOf_unaccepted {s : Setup} {start : Millis} {w : World}
    (h : Reachable (step s) (World.new s start) w) {job : Nat} (hjob : w.frames[job]? = none) :
    w.callsOf job = [] := by
  suffices hall : ∀ job, w.frames[job]? = none → w.callsOf job = [] from hall job hjob
  refine h.invariant (I := fun w => ∀ job, w.frames[job]? = none → w.callsOf job = [])
    (fun _ _ => rfl) ?_
  intro w a w' hinv _ hstep job hjob
  cases step_job hstep job with
  | absent hbefore _ _ hcalls =>
    rw [hcalls]
    exact hinv job hbefore
  | accepted _ _ _ _ hafter _ _ | resumed _ _ _ _ _ _ hafter _ _ _ | stays _ _ hafter _ _ _
  | deadline _ _ _ _ hafter _ | aborted _ _ _ _ hafter _ =>
    rw [hjob] at hafter
    cases hafter

/-- A step records the failures it makes. -/
theorem failuresRecorded_step {s : Setup} {start : Millis} {w w' : World} {a : Action}
    (hreach : Reachable (step s) (World.new s start) w) (h : w.FailuresRecorded)
    (hstep : step s w a = some w') : w'.FailuresRecorded := by
  have hjobs := jobsInv_reachable hreach
  intro r hr
  by_cases hresumed : ∃ job reply, a = .resume job reply
  · obtain ⟨job, reply, rfl⟩ := hresumed
    obtain ⟨f, f', effects, hf, hresume, rfl⟩ := step_resume hstep
    obtain ⟨ps, hmove, hps⟩ := Frame.resume_stage hresume
    let moved : World := { w with frames := w.frames.set job f' }
    have hupdate : (moved.performAll (.job job) effects).jobs = w.jobs.updateAll job ps :=
      performAll_updateAll hps
    rw [hupdate] at hr
    obtain ⟨r₀, hr₀, rfl⟩ := (hjobs.move_evolves hf hmove).mem hr
    rw [JobRecord.patchAllAt_id]
    by_cases hid : r₀.id = job
    · -- the record of the job that runs is patched, and its calls grow by these
      have hcalls : (moved.performAll (.job job) effects).callsOf r₀.id =
          w.callsOf r₀.id ++ effects := by
        rw [hid]
        exact callsOf_performAll moved job effects
      rw [hcalls, JobRecord.patchAllAt, if_pos hid, foldl_failureReason, h r₀ hr₀, failures_append,
        failures_eq_patches hps, List.getLast?_append]
    · have hcalls : (moved.performAll (.job job) effects).callsOf r₀.id = w.callsOf r₀.id :=
        callsOf_performAll_of_ne moved (by simp [Ne.symm hid]) effects
      -- another record is left alone, and so are the calls of its job
      rw [hcalls, JobRecord.patchAllAt, if_neg hid]
      exact h r₀ hr₀
  · have hcalls : ∀ job, w'.callsOf job = w.callsOf job :=
      callsOf_of_not_resumed hstep fun job reply ha => hresumed ⟨job, reply, ha⟩
    rw [hcalls]
    cases step_jobs hstep with
    | accepted mode f _ _ _ hcreate _ _ _ =>
      rw [hcreate] at hr
      obtain ⟨r₀, hr₀, rfl⟩ := (hjobs.create_evolves s.environment mode w.now).mem hr
      rcases List.mem_append.mp hr₀ with hold | hnew
      · exact h r₀ hold
      · -- a new record, of a job that has made no call
        rw [List.mem_singleton.mp hnew]
        have hnone := callsOf_unaccepted hreach (List.getElem?_eq_none (Nat.le_refl _))
        show none = (failures (w.callsOf w.frames.length)).getLast?
        rw [hnone]
        rfl
    | moved job reply _ _ _ ha _ _ _ _ _ _ _ => exact absurd ⟨job, reply, ha⟩ hresumed
    | quiet _ _ hsame _ _ =>
      rw [hsame] at hr
      exact h r hr

/-- Every record names its job's last failure, in every reachable state. -/
theorem failuresRecorded_reachable {s : Setup} {start : Millis} {w : World}
    (h : Reachable (step s) (World.new s start) w) : w.FailuresRecorded :=
  h.invariant' (fun _ hr => by cases hr) fun _ _ _ hreach hinv _ hstep =>
    failuresRecorded_step hreach hinv hstep

end World

end ContractPinger
