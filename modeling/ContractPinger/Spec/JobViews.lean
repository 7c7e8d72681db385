import ContractPinger.Spec.HeldRecords
import ContractPinger.Spec.StatsAgreement

/-!
# What a look at a job shows

`GET /sign_bidirectional/:jobId` answers with a record and its durations, at whatever moment it
is asked. A job that is still under way has the stamps of the stages behind it, so one that has
succeeded has them all; and a job has a reason to have failed exactly when it has failed.

## Key results

- `Stage.Complete.move`: a move stamps the stage it leaves behind
- `view_sound`: what a view shows, whenever it is taken
-/

namespace ContractPinger

open Machine

namespace Stage

/-- The record has the stamps of the stages behind it; at the end it has them all, if the job
    has succeeded. -/
def Complete (stage : Stage) (r : JobRecord) : Prop :=
  match stage with
  | .rejected => True
  | .ended => r.state = .responded → ∀ t ∈ r.timings.stamps, t.isSome = true
  | stage => ∀ t ∈ r.timings.stamps.take stage.stamped, t.isSome = true

/-- A move stamps the stage it leaves behind. -/
theorem Complete.move {now : Millis} {a b : Stage} {ps : List JobPatch} {r : JobRecord}
    (hmove : Move now a b ps) (h : a.Complete r) : b.Complete (ps.foldl JobRecord.apply r) := by
  cases hmove with
  | stay stage ps hrun hsilent =>
    obtain ⟨hstate, -, htimings⟩ := foldl_silent hsilent r
    unfold Complete at h ⊢
    rwa [hstate, htimings]
  -- a rejected job is failed next, and only a responded one has to be complete
  | throw => trivial
  | ask => exact h
  | sign => simpa [Complete, stamped, JobTimings.stamps, JobRecord.apply, JobTimings.apply] using h
  | verify => exact h
  | fail stage reason error hopen =>
    intro hstate
    cases hstate
  | mismatch =>
    intro hstate
    cases hstate
  -- each of the others adds the stamp of its stage
  | lease => simp [Complete, stamped, JobTimings.stamps, JobRecord.apply, JobTimings.apply]
  | request => simpa [Complete, stamped, JobTimings.stamps, JobRecord.apply, JobTimings.apply]
      using h
  | broadcast => simpa [Complete, stamped, JobTimings.stamps, JobRecord.apply, JobTimings.apply]
      using h
  | confirm => simpa [Complete, stamped, JobTimings.stamps, JobRecord.apply, JobTimings.apply]
      using h
  | respond =>
    intro _
    simpa [Complete, stamped, JobTimings.stamps, JobRecord.apply, JobTimings.apply] using h

end Stage

namespace World

/-- Every record has the stamps its job has passed. -/
def CompleteInv (w : World) : Prop :=
  ∀ r ∈ w.jobs.jobs, ∀ f : Frame, w.frames[r.id]? = some f → f.pc.stage.Complete r

/-- A step keeps the records complete. -/
theorem completeInv_step {s : Setup} {w w' : World} {a : Action} (hjobs : w.JobsInv)
    (h : w.CompleteInv) (hstep : step s w a = some w') : w'.CompleteInv := by
  intro r' hr' g hg
  cases step_jobs hstep with
  | accepted mode f _ hstage hframes hjobs' _ _ _ =>
    rw [hjobs'] at hr'
    rw [hframes] at hg
    obtain ⟨r, hr, rfl⟩ := (hjobs.create_evolves s.environment mode w.now).mem hr'
    rcases List.mem_append.mp hr with hold | hold
    · rw [id_eq, List.getElem?_append_left (hjobs.id_lt hold)] at hg
      exact h r hold g hg
    · rw [List.mem_singleton.mp hold] at hg ⊢
      have hlast : g = f := Option.some.inj (hg.symm.trans List.getElem?_concat_length)
      subst hlast
      -- a new record has the stamp it was accepted at, which is all it needs
      rcases hstage with hstage | hstage
      · rw [hstage]
        simp [Stage.Complete, Stage.stamped, JobTimings.stamps]
      · rw [hstage]
        trivial
  | moved job reply f f' ps _ hf hmove hframes hjobs' _ _ _ =>
    rw [hjobs'] at hr'
    rw [hframes] at hg
    obtain ⟨r, hr, rfl⟩ := (hjobs.move_evolves hf hmove).mem hr'
    rw [JobRecord.patchAllAt_id] at hg
    rcases List.getElem?_set_eq_some hg with ⟨hid, rfl⟩ | ⟨hid, hg⟩
    · rw [JobRecord.patchAllAt, if_pos hid]
      exact (h r hr f (hid ▸ hf)).move hmove
    · rw [JobRecord.patchAllAt, if_neg hid]
      exact h r hr g hg
  | quiet _ hframes hjobs' _ _ =>
    rw [hjobs'] at hr'
    obtain ⟨f, hf, hpc⟩ := frame_of_map_pc hframes.symm hg
    rw [← hpc]
    exact h r' hr' f hf

/-- The records are complete in every reachable state. -/
theorem completeInv_reachable {s : Setup} {start : Millis} {w : World}
    (h : Reachable (step s) (World.new s start) w) : w.CompleteInv :=
  h.invariant' (fun _ hr => nomatch hr) fun _ _ _ hreach hinv _ hstep =>
    completeInv_step (jobsInv_reachable hreach) hinv hstep

end World

/-- What holds of a view of a job, whenever it is taken. -/
structure JobView.Sound (view : JobView) : Prop where
  durations : view.durations = durationsFor view.record.timings
  failure : view.record.failureReason.isSome = true ↔ view.record.state = .failed
  /-- A job that has succeeded has been through every stage. -/
  complete : view.record.state = .responded →
    ∀ stage : LatencyStage, (view.durations.lookup stage.name).isSome = true

/-- Stamps at both ends give the span between them. -/
private theorem span_isSome {a b : Option Millis} (ha : a.isSome = true) (hb : b.isSome = true) :
    (span a b).isSome = true := by
  obtain ⟨x, rfl⟩ := Option.isSome_iff_exists.mp ha
  obtain ⟨y, rfl⟩ := Option.isSome_iff_exists.mp hb
  rfl

/-- With all stamps there, every stage has a duration. -/
theorem JobTimings.spanOf_isSome {t : JobTimings} (h : ∀ a ∈ t.stamps, a.isSome = true)
    (stage : LatencyStage) : (stage.spanOf t).isSome = true := by
  simp only [stamps, List.mem_cons, List.not_mem_nil, or_false, forall_eq_or_imp,
    forall_eq] at h
  obtain ⟨haccepted, hlease, hsent, hsignature, hbroadcast, hconfirmed, hresponded, hfinished⟩ := h
  cases stage with
  | leaseWaitMs => exact span_isSome haccepted hlease
  | signatureMs => exact span_isSome hsent hsignature
  | confirmationMs => exact span_isSome hbroadcast hconfirmed
  | respondMs => exact span_isSome hconfirmed hresponded
  | totalMs => exact span_isSome haccepted hfinished

/-- A view of a job of the service is sound. -/
theorem World.view_sound {s : Setup} {start : Millis} {w : World}
    (h : Reachable (step s) (World.new s start) w) {job : Nat} {view : JobView}
    (hview : w.jobs.view job = some view) : view.Sound := by
  obtain ⟨r, hr, rfl⟩ := Option.map_eq_some_iff.mp hview
  obtain ⟨hmem, rfl⟩ := JobStore.mem_of_get? hr
  obtain ⟨f, hf, htracks⟩ := (jobsInv_reachable h).tracks r hmem
  refine ⟨rfl, htracks.failure, fun hresponded stage => ?_⟩
  -- its job has ended, for it is finished
  have hended : f.pc.stage = .ended := by
    by_contra hopen
    have hlive := htracks.live hopen
    rw [show r.state = .responded from hresponded] at hlive
    cases hlive
  have hcomplete := completeInv_reachable h r hmem f hf
  rw [hended] at hcomplete
  rw [lookup_durationsFor]
  exact JobTimings.spanOf_isSome (hcomplete hresponded) stage

end ContractPinger
