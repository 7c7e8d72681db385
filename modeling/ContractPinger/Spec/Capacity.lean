import ContractPinger.Spec.LeaseSafety

/-!
# The two ceilings

The store counts the jobs holding an address (`activeCount`) and those awaiting the MPC's
respond (`awaitingRespondCount`), and `atCapacity` compares each with its own ceiling when
a job is to be admitted. Nothing a job does later raises the number of active or of live
jobs, so the first ceiling bounds what it counts. The second does not: a job counted as
active at its admission is counted again when it confirms.

## Key results

- `activeCount_step_le` / `liveCount_step_le`: a step that accepts no job raises neither count
- `activeCount_le_of_admitted`: the active ceiling holds in every state reached by admissions
- `awaitingRespond_bounded`: the respond ceiling holds while jobs are admitted below it
- `respond_ceiling_exceeded`: and not otherwise
-/

namespace ContractPinger

open Machine

namespace JobStore

/-- The live jobs are those without a terminal record. -/
theorem liveCount_eq (store : JobStore) :
    store.liveCount = store.jobs.countP fun r => !r.state.terminal := by
  rw [liveCount, activeCount, awaitingRespondCount]
  induction store.jobs with
  | nil => rfl
  | cons r rest ih =>
    rw [List.countP_cons, List.countP_cons, List.countP_cons, ← ih]
    -- a record is active, awaits the respond, or is finished
    cases r.state <;> simp [JobState.active, JobState.terminal] <;> omega

/-- Creating a job adds one live record. -/
theorem create_countP_le {store : JobStore} {job : Nat} (environment : Environment)
    (mode : TxMode) (now : Millis) (hnd : (store.ids ++ [job]).Nodup) (p : JobRecord → Bool) :
    (store.create job environment mode now).jobs.countP p ≤ store.jobs.countP p + 1 := by
  have hevolves := create_evolves environment mode now hnd
  have hle := hevolves.countP_le p fun _ _ h => h
  rw [List.countP_append] at hle
  -- pruning only ever takes records away, so the new one is all there is to count
  have hone : [newJob job environment mode now].countP p ≤ 1 := List.countP_le_length
  omega

end JobStore

namespace Stage

/-- A move makes no record active that was not. -/
theorem Tracks.active_of_move {now : Millis} {a b : Stage} {ps : List JobPatch}
    {states : List JobState} {r : JobRecord} (h : a.Tracks states r) (hmove : Move now a b ps)
    (hactive : (ps.foldl JobRecord.apply r).state.active = true) : r.state.active = true := by
  -- the state of the record is the last one its job has visited
  have hlast := h.state
  have hvisited := h.visited
  cases hmove with
  | stay _ _ _ hsilent => rwa [(foldl_silent hsilent r).1] at hactive
  | throw _ _ _ hsilent => rwa [(foldl_silent hsilent r).1] at hactive
  | ask => exact hactive
  | lease => exact hactive
  | sign => exact hactive
  | request => rw [show states = _ from hvisited] at hlast; rw [← Option.some.inj hlast]; rfl
  | verify => rw [show states = _ from hvisited] at hlast; rw [← Option.some.inj hlast]; rfl
  | broadcast => rw [show states = _ from hvisited] at hlast; rw [← Option.some.inj hlast]; rfl
  | confirm => cases hactive
  | respond => cases hactive
  | mismatch => cases hactive
  | fail => cases hactive

end Stage

namespace World

/-! ## Counts along a step -/

/-- A class of records no move leads into does not grow in a step that accepts no job. -/
theorem countP_step_le {s : Setup} {w w' : World} {a : Action} (h : w.JobsInv)
    (hstep : step s w a = some w') (hstart : ∀ mode, a ≠ .start mode) (p : JobRecord → Bool)
    (hp : ∀ (f : Frame) (r : JobRecord) (ps : List JobPatch) (b : Stage),
      f.pc.stage.Tracks (w.states r.id) r → Stage.Move w.now f.pc.stage b ps →
      p (ps.foldl JobRecord.apply r) = true → p r = true) :
    w'.jobs.jobs.countP p ≤ w.jobs.jobs.countP p := by
  cases step_jobs hstep with
  | accepted mode _ hmode => exact absurd hmode (hstart mode)
  | moved job reply f f' ps _ hf hmove _ hjobs =>
    rw [hjobs]
    -- the job's own record is the only one that changes
    refine (h.move_evolves hf hmove).countP_le p fun r hr hpr => ?_
    unfold JobRecord.patchAllAt at hpr
    split at hpr
    · rename_i hid
      subst hid
      exact hp f r ps f'.pc.stage (h.tracks_frame hr hf) hmove hpr
    · exact hpr
  | quiet _ _ hjobs => exact Nat.le_of_eq (by rw [hjobs])

/-- No step of a job raises the number of active jobs. -/
theorem activeCount_step_le {s : Setup} {w w' : World} {a : Action} (h : w.JobsInv)
    (hstep : step s w a = some w') (hstart : ∀ mode, a ≠ .start mode) :
    w'.jobs.activeCount ≤ w.jobs.activeCount :=
  countP_step_le h hstep hstart _ fun _ _ _ _ htracks hmove => htracks.active_of_move hmove

/-- No step of a job raises the number of live jobs. -/
theorem liveCount_step_le {s : Setup} {w w' : World} {a : Action} (h : w.JobsInv)
    (hstep : step s w a = some w') (hstart : ∀ mode, a ≠ .start mode) :
    w'.jobs.liveCount ≤ w.jobs.liveCount := by
  rw [JobStore.liveCount_eq, JobStore.liveCount_eq]
  refine countP_step_le h hstep hstart _ fun f r ps b htracks hmove _ => ?_
  -- a move is made from an open stage, where the record is live
  rw [htracks.live hmove.open]
  rfl

/-- The ceilings are the store's for good. -/
theorem ceilings_step {s : Setup} {w w' : World} {a : Action} (h : w.JobsInv)
    (hstep : step s w a = some w') : w'.jobs.maxJobs = w.jobs.maxJobs ∧
      w'.jobs.maxActiveJobs = w.jobs.maxActiveJobs := by
  cases step_jobs hstep with
  | accepted mode _ _ _ _ hjobs =>
    have hevolves := h.create_evolves s.environment mode w.now
    rw [hjobs]
    exact ⟨hevolves.maxJobs, hevolves.maxActiveJobs⟩
  | moved job reply f f' ps _ hf hmove _ hjobs =>
    have hevolves := h.move_evolves hf hmove
    rw [hjobs]
    exact ⟨hevolves.maxJobs, hevolves.maxActiveJobs⟩
  | quiet _ _ hjobs =>
    rw [hjobs]
    exact ⟨rfl, rfl⟩

/-! ## Admission -/

/-- A job is accepted only when neither ceiling is reached. -/
def Admitted (w : World) (a : Action) : Prop :=
  ∀ mode, a = .start mode → w.jobs.atCapacity = none

/-- Where the store lets a job in, both counts are below their ceilings. -/
theorem below_of_atCapacity {store : JobStore} (h : store.atCapacity = none) :
    store.activeCount < store.maxActiveJobs ∧ store.awaitingRespondCount < store.maxJobs := by
  unfold JobStore.atCapacity at h
  split at h
  · cases h
  · split at h
    · cases h
    · omega

/-- The active ceiling bounds the active jobs, in every state reached by admissions. -/
theorem activeCount_le_of_admitted {s : Setup} {start : Millis} {w : World}
    (h : ReachableUnder (step s) Admitted (World.new s start) w) :
    w.jobs.maxActiveJobs = s.maxActiveJobs ∧ w.jobs.activeCount ≤ s.maxActiveJobs := by
  refine h.invariant' (I := fun w => w.jobs.maxActiveJobs = s.maxActiveJobs ∧
    w.jobs.activeCount ≤ s.maxActiveJobs) ⟨rfl, Nat.zero_le _⟩ ?_
  intro w a w' hreach ⟨hmax, hle⟩ hadmitted hstep
  have hinv := jobsInv_reachable hreach.reachable
  refine ⟨(ceilings_step hinv hstep).2.trans hmax, ?_⟩
  -- only an admission raises the count, by one, and it found room for one
  by_cases hstart : ∃ mode, a = .start mode
  · obtain ⟨mode, rfl⟩ := hstart
    cases hstep
    have hbelow := (below_of_atCapacity (hadmitted mode rfl)).1
    have hone := JobStore.create_countP_le s.environment mode w.now hinv.ids_concat_nodup
      fun r => r.state.active
    rw [start_jobs]
    rw [hmax] at hbelow
    exact Nat.le_trans hone hbelow
  · have hstep_le := activeCount_step_le hinv hstep fun mode hmode => hstart ⟨mode, hmode⟩
    omega

/-- A job is accepted only while fewer jobs are live than may await the respond. -/
def LiveBelow (w : World) (a : Action) : Prop :=
  ∀ mode, a = .start mode → w.jobs.liveCount < w.jobs.maxJobs

instance (w : World) (a : Action) : Decidable (w.Admitted a) :=
  match a with
  | .start mode => decidable_of_iff (w.jobs.atCapacity = none)
      ⟨fun h _ _ => h, fun h => h mode rfl⟩
  | .getWorkers | .resume _ _ | .resumeRequest _ _ | .resumeDerivation _ _ | .expire _
  | .respondDeadline _ | .abortActiveJobs | .clock _ => isTrue nofun

instance (w : World) (a : Action) : Decidable (w.LiveBelow a) :=
  match a with
  | .start mode => decidable_of_iff (w.jobs.liveCount < w.jobs.maxJobs)
      ⟨fun h _ _ => h, fun h => h mode rfl⟩
  | .getWorkers | .resume _ _ | .resumeRequest _ _ | .resumeDerivation _ _ | .expire _
  | .respondDeadline _ | .abortActiveJobs | .clock _ => isTrue nofun

/-- Live jobs stay within the respond ceiling while every admission finds room for one more. -/
theorem liveCount_le_of_liveBelow {s : Setup} {start : Millis} {w : World}
    (h : ReachableUnder (step s) LiveBelow (World.new s start) w) :
    w.jobs.maxJobs = s.maxJobs ∧ w.jobs.liveCount ≤ s.maxJobs := by
  refine h.invariant' (I := fun w => w.jobs.maxJobs = s.maxJobs ∧
    w.jobs.liveCount ≤ s.maxJobs) ⟨rfl, Nat.zero_le _⟩ ?_
  intro w a w' hreach ⟨hmax, hle⟩ hbelow hstep
  have hinv := jobsInv_reachable hreach.reachable
  refine ⟨(ceilings_step hinv hstep).1.trans hmax, ?_⟩
  -- likewise for the live jobs
  by_cases hstart : ∃ mode, a = .start mode
  · obtain ⟨mode, rfl⟩ := hstart
    cases hstep
    have hroom := hbelow mode rfl
    have hone := JobStore.create_countP_le s.environment mode w.now hinv.ids_concat_nodup
      fun r => !r.state.terminal
    rw [JobStore.liveCount_eq, hmax] at hroom
    rw [start_jobs, JobStore.liveCount_eq]
    omega
  · have hstep_le := liveCount_step_le hinv hstep fun mode hmode => hstart ⟨mode, hmode⟩
    omega

/-- With at most one active job, or none at all, the two ceilings together leave room. -/
theorem liveBelow_of_admitted {s : Setup} {start : Millis} {w : World} {a : Action}
    (hceilings : s.maxActiveJobs ≤ 1 ∨ s.maxJobs = 0)
    (h : ReachableUnder (step s) Admitted (World.new s start) w)
    (hmax : w.jobs.maxJobs = s.maxJobs) (hadmitted : w.Admitted a) : w.LiveBelow a := by
  rintro mode rfl
  obtain ⟨hactive, hrespond⟩ := below_of_atCapacity (hadmitted mode rfl)
  have hmaxActive := (activeCount_le_of_admitted h).1
  -- below a ceiling of one nobody is active, so the live jobs are those that await
  unfold JobStore.liveCount
  omega

/-- The respond ceiling bounds the respond waits in every run that admits jobs only while
    fewer are live than the ceiling. -/
theorem awaitingRespond_bounded {s : Setup} {start : Millis} {w : World}
    (h : ReachableUnder (step s) (fun w a => w.Admitted a ∧ w.LiveBelow a)
      (World.new s start) w) :
    w.jobs.awaitingRespondCount ≤ s.maxJobs := by
  have hlive := (liveCount_le_of_liveBelow (h.mono fun _ _ hg => hg.2)).2
  unfold JobStore.liveCount at hlive
  omega

/-- That is every run when at most one job may be active, or none may await. -/
theorem awaitingRespond_bounded_of_ceilings {s : Setup} {start : Millis} {w : World}
    (hceilings : s.maxActiveJobs ≤ 1 ∨ s.maxJobs = 0)
    (h : ReachableUnder (step s) Admitted (World.new s start) w) :
    w.jobs.awaitingRespondCount ≤ s.maxJobs := by
  -- every admission of such a run finds room among the live jobs too
  have hguarded : ReachableUnder (step s) (fun w a => w.Admitted a ∧ w.LiveBelow a)
      (World.new s start) w := by
    induction h with
    | refl => exact .refl
    | tail a hreach hadmitted hstep ih =>
      have hmax := (liveCount_le_of_liveBelow (ih.mono fun _ _ hg => hg.2)).1
      exact .tail a ih ⟨hadmitted, liveBelow_of_admitted hceilings hreach hmax hadmitted⟩ hstep
  exact awaitingRespond_bounded hguarded

/-- A deployment that lets two jobs be active, and as many await the respond as given. -/
def ceilingSetup (maxJobs : Nat) : Setup :=
  { sampleSetup with
    env := { sampleSetup.env with
      bidirectional := { paths := 1, maxActiveJobs := 2, maxJobs } } }

/-- A job from its resumption at `acquireWithin` to its confirmation. -/
def confirmFrom (job nonce : Nat) : List Action :=
  [.resume job .resume, .resume job (.balance 10000000000000000),
    .resume job (.nonceAndFees nonce ⟨1, 1⟩), .resume job (.gas 21000), .resume job .instruction,
    .resume job (.solanaTx "sig"), .resume job (.rsv ⟨"r", "s", 0⟩), .resume job .resume,
    .resume job (.txHash "0xab"), .resume job (.receipt true)]

/-- Two jobs are admitted while neither awaits the respond; then both confirm. -/
def bothConfirmRun : List Action :=
  contendedRun ++ (confirmFrom 0 7).tail ++ confirmFrom 1 8

/-- The state that run ends in. -/
def bothConfirmWorld (maxJobs : Nat) : World :=
  (exec (step (ceilingSetup maxJobs)) (World.new (ceilingSetup maxJobs) 0) bothConfirmRun).getD
    (World.new (ceilingSetup maxJobs) 0)

/-- Under a ceiling of two, both are admitted below it, and the bound is reached. -/
theorem bothConfirmRun_bounded :
    (bothConfirmWorld 2).jobs.awaitingRespondCount ≤ (ceilingSetup 2).maxJobs ∧
      (bothConfirmWorld 2).jobs.awaitingRespondCount = 2 := by
  have hexec : exec (step (ceilingSetup 2)) (World.new (ceilingSetup 2) 0) bothConfirmRun =
      some (bothConfirmWorld 2) := exec_getD (by decide +kernel) _
  have hguarded : Along (step (ceilingSetup 2)) (fun w a => w.Admitted a ∧ w.LiveBelow a)
      (World.new (ceilingSetup 2) 0) bothConfirmRun := by
    decide +kernel
  exact ⟨awaitingRespond_bounded (.of_exec hexec hguarded), by decide +kernel⟩

/-- Under a ceiling of one, two jobs await the respond. -/
theorem respond_ceiling_exceeded :
    ReachableUnder (step (ceilingSetup 1)) Admitted (World.new (ceilingSetup 1) 0)
        (bothConfirmWorld 1) ∧
      (bothConfirmWorld 1).jobs.awaitingRespondCount = 2 ∧ (ceilingSetup 1).maxJobs = 1 := by
  have hexec : exec (step (ceilingSetup 1)) (World.new (ceilingSetup 1) 0) bothConfirmRun =
      some (bothConfirmWorld 1) := exec_getD (by decide +kernel) _
  have hadmitted : Along (step (ceilingSetup 1)) Admitted (World.new (ceilingSetup 1) 0)
      bothConfirmRun := by
    decide +kernel
  exact ⟨.of_exec hexec hadmitted, by decide +kernel, rfl⟩

end World

end ContractPinger
