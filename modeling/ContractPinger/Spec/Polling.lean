import ContractPinger.Spec.LoadDriver
import ContractPinger.Spec.RecordGrowth

/-!
# Asking twice for a job

Two answers to `GET /sign_bidirectional/:jobId` agree, however much the server has done in
between and for whomever: the later one tells all that the earlier one did, and maybe more.
A job that was known is unknown only once it has ended and others have taken its place, and
then it is never heard of again.

## Key results

- `view_continues`: what one service tells of its job later on
- `polls_agree`: the same of the server
-/

namespace ContractPinger

open Machine

/-- What the view tells, the other tells too. -/
structure JobView.Grows (view view' : JobView) : Prop where
  record : view.record.Grows view'.record
  durations : ∀ stage : LatencyStage,
    WriteOnce.Keeps (view.durations.lookup stage.name) (view'.durations.lookup stage.name)

namespace World

variable {s : Setup} {w w' : World} {start : Millis}

/-- What a service tells of a job it has told of. -/
theorem view_continues (h : Reachable (step s) (World.new s start) w)
    (h' : Reachable (step s) w w') {job : Nat} {view : JobView}
    (hview : w.jobs.view job = some view) :
    job < w'.frames.length ∧ (∀ view', w'.jobs.view job = some view' → view.Grows view') ∧
      (w'.jobs.view job = none → Forgotten s w' job) := by
  obtain ⟨r, hr, rfl⟩ := Option.map_eq_some_iff.mp hview
  obtain ⟨hmem, hid⟩ := JobStore.mem_of_get? hr
  have hjob : job < w.frames.length := hid ▸ (jobsInv_reachable h).id_lt hmem
  obtain ⟨hjob', hgrows⟩ := grows_reachable h h' hjob
  refine ⟨hjob', fun view' hview' => ?_, fun hnone => ?_⟩
  · obtain ⟨r', hr', rfl⟩ := Option.map_eq_some_iff.mp hview'
    obtain ⟨r₀, hr₀, hle⟩ := hgrows r' hr'
    -- the store has one record of the job, so it is the one that was viewed
    obtain rfl : r = r₀ := Option.some.inj (hr.symm.trans hr₀)
    exact ⟨hle, hle.durations⟩
  · exact forgotten_of_gone (h.trans h') hjob' (Option.map_eq_none_iff.mp hnone)

/-- A service that has forgotten a job tells nothing of it any more. -/
theorem view_gone (h : Reachable (step s) (World.new s start) w) (h' : Reachable (step s) w w')
    {job : Nat} (hjob : job < w.frames.length) (hgone : w.jobs.view job = none) :
    w'.jobs.view job = none := by
  obtain ⟨_, hgrows⟩ := grows_reachable h h' hjob
  cases hview : w'.jobs.view job with
  | none => rfl
  | some view' =>
    obtain ⟨r', hr', _⟩ := Option.map_eq_some_iff.mp hview
    obtain ⟨r, hr, _⟩ := hgrows r' hr'
    rw [JobStore.view, hr] at hgone
    cases hgone

end World

namespace App

variable {c : Config} {app app' : App}

/-- A service of the server goes on as its own machine does, its limiter apart. -/
theorem service_continues (h : Reachable (step c) app app') {environment : Environment}
    {v : World} (hv : app.Hosts environment fun w => w = v.setLimiter w.limiter) :
    app'.Hosts environment fun w => ∃ v', w = v'.setLimiter w.limiter ∧
      Reachable (World.step (c.setup environment)) v v' := by
  obtain ⟨w, hw, heq⟩ := hv
  refine h.invariant (I := fun app => app.Hosts environment fun w =>
    ∃ v', w = v'.setLimiter w.limiter ∧ Reachable (World.step (c.setup environment)) v v')
    ⟨w, hw, v, heq, .refl⟩ fun app a app' hosts _ hstep => hosts.step ?_ ?_ hstep
  · rintro w limiter ⟨v', heq, hreach⟩
    refine ⟨v', ?_, hreach⟩
    rw [heq]
    rfl
  · rintro w a w' ⟨v', heq, hreach⟩ hstep
    -- the limiter is the server's business: the service steps the same under any
    rw [heq, World.step_setLimiter, Option.map_eq_some_iff] at hstep
    obtain ⟨v'', hstep, rfl⟩ := hstep
    exact ⟨v'', rfl, .tail a hreach trivial hstep⟩

/-- Two answers about one job: the later one tells all that the earlier one did. If by then the
    job is unknown it has ended, with more jobs of its network than are retained, and no
    later answer tells of it. -/
theorem polls_agree {now : Millis} (h : Reachable (step c) (App.new now) app)
    (h' : Reachable (step c) app app') {start : Nat} {id : JobId} {view : JobView}
    (hview : app.getJob start id = some view) :
    (∀ view', app'.getJob start id = some view' → view.Grows view') ∧
      (app'.getJob start id = none →
        app'.Hosts id.environment
            (fun w => World.Forgotten (c.setup id.environment) w id.job) ∧
          ∀ app'', Reachable (step c) app' app'' → app''.getJob start id = none) := by
  rw [getJob_eq, Option.ite_none_right_eq_some] at hview
  obtain ⟨hstart, hview⟩ := hview
  obtain ⟨w, hw, hview⟩ := Option.bind_eq_some_iff.mp hview
  obtain ⟨_, v, hv, heq⟩ := service_byItself h hw
  have hreach := hv.reachable
  obtain ⟨w', hw', v', heq', hreach'⟩ := service_continues h' ⟨w, hw, heq⟩
  -- the store of the service is that of the machine it runs like
  rw [heq] at hview
  obtain ⟨hjob, hgrows, hgone⟩ := World.view_continues hreach hreach' hview
  have hjobs : w'.jobs = v'.jobs := by rw [heq']; rfl
  have hasked : app'.getJob start id = v'.jobs.view id.job := by
    rw [getJob_eq, if_pos hstart, hw', Option.bind_some, hjobs]
  rw [hasked]
  refine ⟨hgrows, fun hnone => ⟨⟨w', hw', ?_⟩, fun app'' h'' => ?_⟩⟩
  · rw [heq']
    exact hgone hnone
  · obtain ⟨w'', hw'', v'', heq'', hreach''⟩ := service_continues h'' ⟨w', hw', heq'⟩
    have hjobs'' : w''.jobs = v''.jobs := by rw [heq'']; rfl
    rw [getJob_eq, if_pos hstart, hw'', Option.bind_some, hjobs'']
    exact World.view_gone (hreach.trans hreach') hreach'' hjob hnone

/-! ## A job asked for twice -/

/-- The signature is asked for, and in the end the job has responded. -/
def askedRun : List AppAction :=
  .post LoadTest.loadOptions.request ::
    (World.respondedRun.tail.take 13).map LoadTest.served

def askedApp : App := (exec (step LoadTest.loadConfig) (App.new 0) askedRun).getD (App.new 0)

def respondedApp : App :=
  (exec (step LoadTest.loadConfig) askedApp
    ((World.respondedRun.tail.drop 13).map LoadTest.served)).getD (App.new 0)

/-- A job polled while it awaits its signature, and again when it has been responded to. -/
theorem respondedApp_polls : ∃ view view', askedApp.getJob 0 ⟨0, .dev, 0⟩ = some view ∧
    respondedApp.getJob 0 ⟨0, .dev, 0⟩ = some view' ∧ view.record.state = .awaitingSignature ∧
    view'.record.state = .responded ∧ view.Grows view' := by
  have hasked : exec (step LoadTest.loadConfig) (App.new 0) askedRun = some askedApp :=
    exec_getD (by decide +kernel) _
  have hresponded : exec (step LoadTest.loadConfig) askedApp
      ((World.respondedRun.tail.drop 13).map LoadTest.served) = some respondedApp :=
    exec_getD (by decide +kernel) _
  have hbefore : (askedApp.getJob 0 ⟨0, .dev, 0⟩).map (fun view => view.record.state) =
      some .awaitingSignature := by decide +kernel
  have hafter : (respondedApp.getJob 0 ⟨0, .dev, 0⟩).map (fun view => view.record.state) =
      some .responded := by decide +kernel
  obtain ⟨view, hview, hstate⟩ := Option.map_eq_some_iff.mp hbefore
  obtain ⟨view', hview', hstate'⟩ := Option.map_eq_some_iff.mp hafter
  have hagree := polls_agree (reachable_of_exec hasked) (reachable_of_exec hresponded) hview
  exact ⟨view, view', hview, hview', hstate, hstate', hagree.1 view' hview'⟩

end App

end ContractPinger
