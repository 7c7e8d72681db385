import ContractPinger.ForStd.Stamps
import ContractPinger.Spec.JobStages

/-!
# The life of a job's record

A record only moves forward along the pipeline of states, or jumps once to `failed`; it is
finished by exactly one write, keeps the instant it was accepted at, and carries its stage
stamps in order. None of this is checked by `JobStore.update`, which would overwrite a
finished record without complaint: it holds because of where `run()` writes what.

## Key results

- `Stage.Tracks.move`: what a record and its history satisfy at a stage, one move carries to
  the next stage
- `jobsInv_step`: the store keeps `JobsInv` through every step of the service
- `stampsInv_step`: and its records stamped in order, while the clock does not go back
- `job_lifecycle`: the life of every job in every reachable state
-/

namespace ContractPinger

open Machine

/-- The states of a job that succeeds, in order. -/
def JobState.pipeline : List JobState :=
  [.pending, .signSent, .awaitingSignature, .verified, .broadcast, .confirmed, .responded]

/-- Forward along the pipeline, possibly cut short by one jump to `failed`. -/
def JobState.Forward (states : List JobState) : Prop :=
  states <+: pipeline ∨
    ∃ before, before ≠ [] ∧ before <+: pipeline.dropLast ∧ states = before ++ [.failed]

/-- The stamps of a record, in stage order. -/
def JobTimings.stamps (t : JobTimings) : List (Option Millis) :=
  [some t.acceptedAt, t.leaseAcquiredAt, t.signSentAt, t.signatureAt, t.broadcastAt,
    t.confirmedAt, t.respondedAt, t.finishedAt]

/-- The state a call writes on the record of `job`. -/
def Effect.stateWrite (job : Nat) (effect : Effect) : Option JobState :=
  (effect.patch? 0).bind fun entry => if entry.1 = job then entry.2.state else none

/-- The states the record of `job` has been in, in order. -/
def World.states (w : World) (job : Nat) : List JobState :=
  .pending :: w.calls.filterMap fun call => call.2.stateWrite job

namespace Stage

open JobState (pipeline)

/-! ## What holds of a record at each stage -/

/-- How many states of the pipeline a job at this stage has been in. -/
def reached : Stage → Nat
  | .idle => 1
  | .leasing => 1
  | .leased => 1
  | .requested => 3
  | .signed => 3
  | .verified => 4
  | .broadcast => 5
  | .confirmed => 6
  | .rejected => 6
  | .ended => 7

/-- The first stamp a job at this stage has not received. -/
def stamped : Stage → Nat
  | .idle => 1
  | .leasing => 1
  | .leased => 2
  | .requested => 3
  | .signed => 4
  | .verified => 4
  | .broadcast => 5
  | .confirmed => 6
  | .rejected => 7
  | .ended => 8

/-- The states a job at this stage has been in. -/
def Visited (stage : Stage) (states : List JobState) : Prop :=
  match stage with
  | .rejected => ∃ n, 0 < n ∧ n ≤ 6 ∧ states = pipeline.take n
  | .ended => states = pipeline ∨ ∃ n, 0 < n ∧ n ≤ 6 ∧ states = pipeline.take n ++ [.failed]
  | stage => states = pipeline.take stage.reached

/-- What the record of a job at this stage satisfies, whatever the clock does. -/
structure Tracks (stage : Stage) (states : List JobState) (r : JobRecord) : Prop where
  visited : stage.Visited states
  state : states.getLast? = some r.state
  failure : r.failureReason.isSome = true ↔ r.state = .failed
  finished : stage = .ended → r.timings.finishedAt.isSome = true

/-- The stamps a job at this stage has received are in order, and none is after `now`. -/
def Timed (stage : Stage) (now : Millis) (r : JobRecord) : Prop :=
  Stamps.Upto stage.stamped now r.timings.stamps

/-- Before it ends, a job has been in a proper part of the pipeline. -/
theorem Visited.take {stage : Stage} {states : List JobState} (h : stage.Visited states)
    (hopen : stage ≠ .ended) : ∃ n, 0 < n ∧ n ≤ 6 ∧ states = pipeline.take n := by
  cases stage with
  | ended => exact absurd rfl hopen
  | rejected => exact h
  | idle => exact ⟨1, by decide, by decide, h⟩
  | leasing => exact ⟨1, by decide, by decide, h⟩
  | leased => exact ⟨1, by decide, by decide, h⟩
  | requested => exact ⟨3, by decide, by decide, h⟩
  | signed => exact ⟨3, by decide, by decide, h⟩
  | verified => exact ⟨4, by decide, by decide, h⟩
  | broadcast => exact ⟨5, by decide, by decide, h⟩
  | confirmed => exact ⟨6, by decide, by decide, h⟩

/-- The states written by patches. -/
def writes (ps : List JobPatch) : List JobState := ps.filterMap JobPatch.state

/-- Silent patches write no state. -/
theorem writes_silent {ps : List JobPatch} (h : ∀ p ∈ ps, Silent p) : writes ps = [] :=
  List.filterMap_eq_nil_iff.mpr fun p hp => (h p hp).1

/-- A move extends the states a job has been in as its next stage demands. -/
theorem Visited.move {now : Millis} {a b : Stage} {ps : List JobPatch} {states : List JobState}
    (hmove : Move now a b ps) (h : a.Visited states) : b.Visited (states ++ writes ps) := by
  -- a move writes the next states of the pipeline, or `failed`, or nothing
  cases hmove with
  | stay stage ps hrun hsilent => rwa [writes_silent hsilent, List.append_nil]
  | ask => rw [show states = pipeline.take 1 from h]; rfl
  | lease => rw [show states = pipeline.take 1 from h]; rfl
  | request => rw [show states = pipeline.take 1 from h]; rfl
  | sign => rw [show states = pipeline.take 3 from h]; rfl
  | verify => rw [show states = pipeline.take 3 from h]; rfl
  | broadcast => rw [show states = pipeline.take 4 from h]; rfl
  | confirm => rw [show states = pipeline.take 5 from h]; rfl
  | respond =>
    rw [show states = pipeline.take 6 from h]
    exact .inl rfl
  | mismatch =>
    rw [show states = pipeline.take 6 from h]
    exact .inr ⟨6, by decide, by decide, rfl⟩
  | fail stage reason error hopen =>
    obtain ⟨n, hpos, hle, rfl⟩ := h.take hopen
    exact .inr ⟨n, hpos, hle, rfl⟩
  | throw stage ps hrun hsilent =>
    rw [writes_silent hsilent, List.append_nil]
    exact h.take (by rintro rfl; cases hrun)

/-! ## The record -/

/-- The last state written is the state of the record. -/
theorem getLast?_writes {ps : List JobPatch} {states : List JobState} {r : JobRecord}
    (h : states.getLast? = some r.state) :
    (states ++ writes ps).getLast? = some (ps.foldl JobRecord.apply r).state := by
  induction ps generalizing states r with
  | nil => rwa [writes, List.filterMap_nil, List.append_nil]
  | cons p rest ih =>
    rw [List.foldl_cons]
    cases hstate : p.state with
    | none =>
      -- a patch without a state leaves the one before
      rw [writes, List.filterMap_cons_none hstate]
      refine ih ?_
      rw [h, JobRecord.apply, hstate]
      rfl
    | some state =>
      rw [writes, List.filterMap_cons_some hstate, List.append_cons]
      refine ih ?_
      rw [List.getLast?_concat, JobRecord.apply, hstate]
      rfl

/-- Silent patches leave state, failure and stamps alone. -/
theorem foldl_silent {ps : List JobPatch} (h : ∀ p ∈ ps, Silent p) (r : JobRecord) :
    (ps.foldl JobRecord.apply r).state = r.state ∧
      (ps.foldl JobRecord.apply r).failureReason = r.failureReason ∧
      (ps.foldl JobRecord.apply r).timings = r.timings := by
  induction ps generalizing r with
  | nil => exact ⟨rfl, rfl, rfl⟩
  | cons p rest ih =>
    obtain ⟨hstate, hfailure, htimings⟩ := h p List.mem_cons_self
    obtain ⟨ihstate, ihfailure, ihtimings⟩ :=
      ih (fun q hq => h q (List.mem_cons_of_mem _ hq)) (r.apply p)
    rw [List.foldl_cons, ihstate, ihfailure, ihtimings]
    simp only [JobRecord.apply, hstate, hfailure, htimings]
    exact ⟨rfl, rfl, rfl⟩

/-- Until its job ends, a record is not finished. -/
theorem Tracks.live {stage : Stage} {states : List JobState} {r : JobRecord}
    (h : stage.Tracks states r) (hopen : stage ≠ .ended) : r.state.terminal = false := by
  obtain ⟨n, hpos, hle, rfl⟩ := h.visited.take hopen
  have hlast := h.state
  have hcases : n = 1 ∨ n = 2 ∨ n = 3 ∨ n = 4 ∨ n = 5 ∨ n = 6 := by omega
  rcases hcases with rfl | rfl | rfl | rfl | rfl | rfl <;>
    (rw [← Option.some.inj hlast]; rfl)

/-- Once its job has ended, a record is finished. -/
theorem Tracks.terminal {states : List JobState} {r : JobRecord}
    (h : ended.Tracks states r) : r.state.terminal = true := by
  have hlast := h.state
  rcases h.visited with rfl | ⟨n, _, _, rfl⟩
  · rw [← Option.some.inj hlast]
    rfl
  · rw [List.getLast?_concat] at hlast
    rw [← Option.some.inj hlast]
    rfl

/-- Until its job ends, a record carries no failure. -/
theorem Tracks.failureReason {stage : Stage} {states : List JobState} {r : JobRecord}
    (h : stage.Tracks states r) (hopen : stage ≠ .ended) : r.failureReason = none := by
  rw [← Option.not_isSome_iff_eq_none, h.failure]
  intro hfailed
  have hlive := h.live hopen
  rw [hfailed] at hlive
  cases hlive

/-- A record that is not failed has no failure. -/
private theorem failure_none {reason : Option FailureReason} {state : JobState}
    (hreason : reason = none) (hstate : state ≠ .failed) :
    reason.isSome = true ↔ state = .failed := by
  rw [hreason]
  exact ⟨nofun, fun h => absurd h hstate⟩

/-- A move carries what the record satisfies to the next stage. -/
theorem Tracks.move {now : Millis} {a b : Stage} {ps : List JobPatch} {states : List JobState}
    {r : JobRecord} (hmove : Move now a b ps) (h : a.Tracks states r) :
    b.Tracks (states ++ writes ps) (ps.foldl JobRecord.apply r) := by
  have hvisited := h.visited.move hmove
  have hstate : (states ++ writes ps).getLast? = some (ps.foldl JobRecord.apply r).state :=
    getLast?_writes h.state
  have hnone := h.failureReason hmove.open
  cases hmove with
  | stay stage ps hrun hsilent =>
    -- silent patches change neither state nor failure
    obtain ⟨hsame, hfailure, _⟩ := foldl_silent hsilent r
    refine ⟨hvisited, hstate, ?_, ?_⟩
    · rw [hsame, hfailure]
      exact h.failure
    · rintro rfl
      cases hrun
  -- the pipeline, where each stage writes its own state
  | ask => exact ⟨hvisited, hstate, h.failure, nofun⟩
  | lease => exact ⟨hvisited, hstate, h.failure, nofun⟩
  | request => exact ⟨hvisited, hstate, failure_none hnone nofun, nofun⟩
  | sign => exact ⟨hvisited, hstate, h.failure, nofun⟩
  | verify => exact ⟨hvisited, hstate, failure_none hnone nofun, nofun⟩
  | broadcast => exact ⟨hvisited, hstate, failure_none hnone nofun, nofun⟩
  | confirm => exact ⟨hvisited, hstate, failure_none hnone nofun, nofun⟩
  | respond => exact ⟨hvisited, hstate, failure_none hnone nofun, fun _ => rfl⟩
  -- the two ways to fail write state and reason together
  | mismatch => exact ⟨hvisited, hstate, iff_of_true rfl rfl, fun _ => rfl⟩
  | fail => exact ⟨hvisited, hstate, iff_of_true rfl rfl, fun _ => rfl⟩
  | throw stage ps hrun hsilent =>
    obtain ⟨hsame, hfailure, _⟩ := foldl_silent hsilent r
    refine ⟨hvisited, hstate, ?_, nofun⟩
    rw [hsame, hfailure]
    exact h.failure

/-- A job that has not ended has seven stamps at most. -/
theorem stamped_le {stage : Stage} (hopen : stage ≠ .ended) : stage.stamped ≤ 7 := by
  cases stage <;> first | exact absurd rfl hopen | decide

/-- A move stamps the record with the current time, at places not stamped yet. -/
theorem Timed.move {now : Millis} {a b : Stage} {ps : List JobPatch} {r : JobRecord}
    (hmove : Move now a b ps) (h : a.Timed now r) : b.Timed now (ps.foldl JobRecord.apply r) := by
  -- each stage stamps the first place that the one before has left blank
  cases hmove with
  | stay stage ps hrun hsilent =>
    rw [Timed, (foldl_silent hsilent r).2.2]
    exact h
  | ask => exact h
  | lease => exact h.stamp (Nat.le_refl 1)
  | request => exact h.stamp (Nat.le_refl 2)
  | sign => exact h.stamp (Nat.le_refl 3)
  | verify => exact h
  | broadcast => exact h.stamp (Nat.le_refl 4)
  | confirm => exact h.stamp (Nat.le_refl 5)
  | respond =>
    -- two stamps at one instant: `respondedAt`, then `finishedAt`
    have hresponded := h.stamp (Nat.le_refl 6)
    exact hresponded.stamp (Nat.le_refl 7)
  | mismatch =>
    have hresponded := h.stamp (Nat.le_refl 6)
    exact hresponded.stamp (Nat.le_refl 7)
  | fail stage reason error hopen => exact h.stamp (stamped_le hopen)
  | throw stage ps hrun hsilent =>
    have hopen : a ≠ .ended := by
      rintro rfl
      cases hrun
    rw [Timed, (foldl_silent hsilent r).2.2]
    exact h.mono (stamped_le hopen)

end Stage

/-! ## The calls of one stretch of code, seen from the store -/

/-- The state a call writes does not depend on the time it is made at. -/
theorem Effect.stateWrite_eq (now : Millis) (job : Nat) (effect : Effect) :
    effect.stateWrite job =
      (effect.patch? now).bind fun entry => if entry.1 = job then entry.2.state else none := by
  cases effect <;> rfl

namespace World

section PerformAll

variable {w : World} {who : Proc} {job : Nat} {effects : List Effect} {ps : List JobPatch}

/-- The store after a stretch of code that patches one record. -/
theorem performAll_updateAll (h : patches w.now effects = ps.map (Prod.mk job)) :
    (w.performAll who effects).jobs = w.jobs.updateAll job ps := by
  -- the calls act on the store through their patches alone
  have hfold : ∀ (effects : List Effect) (jobs : JobStore),
      effects.foldl (fun jobs effect => effect.onJobs w.now jobs) jobs =
        (patches w.now effects).foldl (fun jobs entry => jobs.update entry.1 entry.2) jobs := by
    intro effects
    induction effects with
    | nil => exact fun _ => rfl
    | cons effect rest ih =>
      intro jobs
      rw [List.foldl_cons, ih]
      cases effect <;> rfl
  rw [performAll_jobs, hfold, h, List.foldl_map]
  rfl

/-- A stretch of code writes the states of its patches on its own job. -/
theorem performAll_states (h : patches w.now effects = ps.map (Prod.mk job)) (i : Nat) :
    (w.performAll who effects).states i =
      if i = job then w.states i ++ Stage.writes ps else w.states i := by
  have hwrites : (effects.map fun effect => (who, effect)).filterMap
      (fun call => call.2.stateWrite i) = if i = job then Stage.writes ps else [] := by
    rw [List.filterMap_map]
    -- the states written are those of the patches, each on the record of its id
    have hpatches : effects.filterMap (Effect.stateWrite i) =
        (patches w.now effects).filterMap
          fun entry => if entry.1 = i then entry.2.state else none := by
      rw [patches, List.filterMap_filterMap]
      exact List.filterMap_congr fun effect _ => effect.stateWrite_eq w.now i
    show effects.filterMap (Effect.stateWrite i) = _
    rw [hpatches, h, List.filterMap_map]
    split
    · rename_i hi
      rw [hi]
      exact List.filterMap_congr fun p _ => if_pos rfl
    · rename_i hi
      exact List.filterMap_eq_nil_iff.mpr fun p _ => if_neg fun hj => hi hj.symm
  simp only [states, performAll_calls, List.filterMap_append, hwrites]
  split
  · rfl
  · rw [List.append_nil]

end PerformAll

/-! ## What a step makes of the jobs -/

/-- A step accepts a job, moves one job and its record, or does neither. -/
inductive JobsStep (s : Setup) (w w' : World) (a : Action) : Prop
  | accepted (mode : TxMode) (f : Frame) (isStart : a = .start mode)
      (stage : f.pc.stage = .idle ∨ f.pc.stage = .rejected)
      (frames : w'.frames = w.frames ++ [f])
      (jobs : w'.jobs = w.jobs.create w.frames.length s.environment mode w.now)
      (states : ∀ i, w'.states i = w.states i)
      (starts : w'.starts = w.starts ++ [(w.frames.length, w.now)])
      (now : w'.now = w.now)
  | moved (job : Nat) (reply : Reply) (f f' : Frame) (ps : List JobPatch)
      (isResume : a = .resume job reply) (frame : w.frames[job]? = some f)
      (move : Stage.Move w.now f.pc.stage f'.pc.stage ps)
      (frames : w'.frames = w.frames.set job f')
      (jobs : w'.jobs = w.jobs.updateAll job ps)
      (states : ∀ i, w'.states i =
        if i = job then w.states i ++ Stage.writes ps else w.states i)
      (starts : w'.starts = w.starts)
      (now : w'.now = w.now)
  | quiet (notStart : ∀ mode, a ≠ .start mode)
      (frames : w'.frames.map Frame.pc = w.frames.map Frame.pc)
      (jobs : w'.jobs = w.jobs)
      (states : ∀ i, w'.states i = w.states i)
      (starts : w'.starts = w.starts)

/-- What any step does to frames, records and their history. -/
theorem step_jobs {s : Setup} {w w' : World} {a : Action} (hstep : step s w a = some w') :
    JobsStep s w w' a := by
  cases a with
  | start mode =>
    cases hstep
    obtain ⟨f, hframes, _, _, hpc⟩ := start_frames w s mode
    have hstage : f.pc.stage = .idle ∨ f.pc.stage = .rejected := by
      rcases hpc with ⟨d, hd⟩ | ⟨e, he⟩
      · exact .inl (by rw [hd]; rfl)
      · exact .inr (by rw [he]; rfl)
    have hstates : ∀ i, (w.start s mode).states i = w.states i := by
      intro i
      rw [states, start_calls]
      rfl
    exact .accepted mode f rfl hstage hframes (start_jobs w s mode) hstates
      (start_starts w s mode) (start_now w s mode)
  | getWorkers =>
    cases hstep
    refine .quiet (by simp) (by simp [getWorkers]) (by simp [getWorkers]) ?_ ?_
    · simp [getWorkers, states, calls]
    · simp [getWorkers, starts]
  | resume job reply =>
    obtain ⟨f, f', effects, hf, hresume, rfl⟩ := step_resume hstep
    obtain ⟨ps, hmove, hps⟩ := Frame.resume_stage hresume
    let moved : World := { w with frames := w.frames.set job f' }
    have hjobs : (moved.performAll (.job job) effects).jobs = w.jobs.updateAll job ps :=
      performAll_updateAll hps
    have hstates : ∀ i, (moved.performAll (.job job) effects).states i =
        if i = job then w.states i ++ Stage.writes ps else w.states i :=
      performAll_states hps
    exact .moved job reply f f' ps rfl hf hmove (performAll_frames _ _ _) hjobs hstates
      (performAll_starts _ _ _) (performAll_now _ _ _)
  | resumeRequest request reply =>
    obtain ⟨pc, pc', effects, _, hresume, rfl⟩ := step_resumeRequest hstep
    let asked : World := { w with requests := w.requests.set request pc' }
    -- a request patches no record, of whatever job
    have hps : patches asked.now effects = ([] : List JobPatch).map (Prod.mk 0) :=
      resumeRequest_patches hresume w.now
    have hstates : ∀ i, (asked.performAll (.request request) effects).states i =
        if i = 0 then w.states i ++ Stage.writes [] else w.states i :=
      performAll_states hps
    refine .quiet (by simp) ?_ (performAll_updateAll (w := asked) hps) (fun i => ?_) ?_
    · rw [performAll_frames]
    · rw [hstates, show Stage.writes [] = [] from rfl, List.append_nil, ite_self]
    · rw [performAll_starts]
      rfl
  | resumeDerivation index reply =>
    obtain ⟨pool, ready, derivations, rfl, _⟩ := step_resumeDerivation hstep
    exact .quiet (by simp) rfl rfl (fun _ => rfl) rfl
  | expire job =>
    obtain ⟨_, rfl⟩ := step_expire hstep
    refine .quiet (by simp) rfl rfl (fun i => ?_) (setPool_starts _ _)
    rw [states, setPool_calls]
    rfl
  | respondDeadline job =>
    obtain ⟨f, hf, _, rfl⟩ := step_respondDeadline hstep
    exact .quiet (by simp) (List.map_set_of_eq hf rfl) rfl (fun _ => rfl) rfl
  | abortActiveJobs =>
    cases hstep
    refine .quiet (by simp) (abortActiveJobs_map w Frame.pc fun _ => rfl) rfl (fun i => ?_)
      (abortActiveJobs_starts w)
    rw [states, abortActiveJobs_calls]
    rfl
  | clock now =>
    cases hstep
    exact .quiet (by simp) rfl rfl (fun _ => rfl) rfl

/-- A frame of a state in which no job has moved. -/
theorem frame_of_map_pc {w w' : World} (hframes : w'.frames.map Frame.pc = w.frames.map Frame.pc)
    {job : Nat} {f : Frame} (hf : w.frames[job]? = some f) :
    ∃ f' : Frame, w'.frames[job]? = some f' ∧ f'.pc = f.pc := by
  have hpc : (w'.frames.map Frame.pc)[job]? = some f.pc := by
    rw [hframes, List.getElem?_map, hf]
    rfl
  rw [List.getElem?_map, Option.map_eq_some_iff] at hpc
  exact hpc

/-! ## The invariant of the store -/

/-- Every record is where its job stands, every unfinished job has its record, and every
    job was accepted once. -/
structure JobsInv (w : World) : Prop where
  ids_nodup : w.jobs.ids.Nodup
  tracks : ∀ r ∈ w.jobs.jobs, ∃ f : Frame, w.frames[r.id]? = some f ∧
    f.pc.stage.Tracks (w.states r.id) r
  kept : ∀ (job : Nat) (f : Frame), w.frames[job]? = some f → f.pc.stage ≠ .ended →
    ∃ r ∈ w.jobs.jobs, r.id = job
  visited : ∀ (job : Nat) (f : Frame), w.frames[job]? = some f → f.pc.stage.Visited (w.states job)
  fresh : ∀ job, w.frames.length ≤ job → w.states job = [.pending]
  starts : w.starts.map Prod.fst = List.range w.frames.length
  accepted : ∀ r ∈ w.jobs.jobs, (r.id, r.timings.acceptedAt) ∈ w.starts

/-- A new service has no record and no job. -/
theorem jobsInv_new (s : Setup) (now : Millis) : (World.new s now).JobsInv where
  ids_nodup := List.nodup_nil
  tracks _ h := nomatch h
  kept _ _ h := nomatch h
  visited _ _ h := nomatch h
  fresh _ _ := rfl
  starts := rfl
  accepted _ h := nomatch h

namespace JobsInv

variable {s : Setup} {w w' : World}

/-- The frame of a record's job tracks it. -/
theorem tracks_frame (h : w.JobsInv) {r : JobRecord} (hr : r ∈ w.jobs.jobs) {f : Frame}
    (hf : w.frames[r.id]? = some f) : f.pc.stage.Tracks (w.states r.id) r := by
  obtain ⟨g, hg, htracks⟩ := h.tracks r hr
  rw [hf] at hg
  cases hg
  exact htracks

/-- Records are of jobs that were accepted. -/
theorem id_lt (h : w.JobsInv) {r : JobRecord} (hr : r ∈ w.jobs.jobs) :
    r.id < w.frames.length := by
  obtain ⟨g, hg, _⟩ := h.tracks r hr
  exact (List.getElem?_eq_some_iff.mp hg).1

/-- The id of the next job is fresh. -/
theorem ids_concat_nodup (h : w.JobsInv) : (w.jobs.ids ++ [w.frames.length]).Nodup := by
  refine List.nodup_append.mpr ⟨h.ids_nodup, List.nodup_singleton _, ?_⟩
  intro i hi j hj
  obtain ⟨r, hr, rfl⟩ := List.mem_map.mp hi
  have hlt := h.id_lt hr
  rw [List.mem_singleton.mp hj]
  omega

/-- The store after accepting a job. -/
theorem create_evolves (h : w.JobsInv) (environment : Environment) (mode : TxMode)
    (now : Millis) :
    JobStore.Evolves id
      { w.jobs with
        jobs := w.jobs.jobs ++ [JobStore.newJob w.frames.length environment mode now] }
      (w.jobs.create w.frames.length environment mode now) :=
  JobStore.create_evolves environment mode now h.ids_concat_nodup

/-- The store after a move of one job. -/
theorem move_evolves (h : w.JobsInv) {job : Nat} {f : Frame} {b : Stage} {ps : List JobPatch}
    (hf : w.frames[job]? = some f) (hmove : Stage.Move w.now f.pc.stage b ps) :
    JobStore.Evolves (JobRecord.patchAllAt job ps) w.jobs (w.jobs.updateAll job ps) := by
  refine JobStore.updateAll_evolves h.ids_nodup ?_ hmove.endsLast
  rintro r hr rfl
  exact (h.tracks_frame hr hf).live hmove.open

/-- A step that writes no record and moves no job keeps the invariant. -/
theorem quiet (h : w.JobsInv) (hframes : w'.frames.map Frame.pc = w.frames.map Frame.pc)
    (hjobs : w'.jobs = w.jobs) (hstates : ∀ job, w'.states job = w.states job)
    (hstarts : w'.starts = w.starts) : w'.JobsInv := by
  have hlength : w'.frames.length = w.frames.length := by
    rw [← List.length_map (f := Frame.pc), hframes, List.length_map]
  refine ⟨?_, ?_, ?_, ?_, ?_, ?_, ?_⟩
  · rw [hjobs]
    exact h.ids_nodup
  · intro r hr
    rw [hjobs] at hr
    obtain ⟨f, hf, htracks⟩ := h.tracks r hr
    -- the job has another frame perhaps, at the same `await`
    obtain ⟨f', hf', hpc⟩ := frame_of_map_pc hframes hf
    refine ⟨f', hf', ?_⟩
    rw [hpc, hstates]
    exact htracks
  · intro job f' hf' hopen
    obtain ⟨f, hf, hpc⟩ := frame_of_map_pc hframes.symm hf'
    rw [hjobs]
    exact h.kept job f hf (hpc ▸ hopen)
  · intro job f' hf'
    obtain ⟨f, hf, hpc⟩ := frame_of_map_pc hframes.symm hf'
    rw [hstates, ← hpc]
    exact h.visited job f hf
  · intro job hjob
    rw [hstates]
    exact h.fresh job (hlength ▸ hjob)
  · rw [hstarts, hlength]
    exact h.starts
  · intro r hr
    rw [hjobs] at hr
    rw [hstarts]
    exact h.accepted r hr

/-- A job that moves takes its record with it. -/
theorem moved (h : w.JobsInv) {job : Nat} {f f' : Frame} {ps : List JobPatch}
    (hf : w.frames[job]? = some f) (hmove : Stage.Move w.now f.pc.stage f'.pc.stage ps)
    (hframes : w'.frames = w.frames.set job f') (hjobs : w'.jobs = w.jobs.updateAll job ps)
    (hstates : ∀ i, w'.states i = if i = job then w.states i ++ Stage.writes ps else w.states i)
    (hstarts : w'.starts = w.starts) : w'.JobsInv := by
  have hlt : job < w.frames.length := (List.getElem?_eq_some_iff.mp hf).1
  have hevolves := h.move_evolves hf hmove
  have hmoved : ∀ r ∈ w.jobs.jobs, r.id = job →
      f'.pc.stage.Tracks (w.states job ++ Stage.writes ps) (r.patchAllAt job ps) := by
    rintro r hr rfl
    rw [JobRecord.patchAllAt, if_pos rfl]
    exact (h.tracks_frame hr hf).move hmove
  refine ⟨?_, ?_, ?_, ?_, ?_, ?_, ?_⟩
  · rw [hjobs]
    exact hevolves.ids_nodup (fun r => r.patchAllAt_id job ps) h.ids_nodup
  · intro r' hr'
    rw [hjobs] at hr'
    obtain ⟨r, hr, rfl⟩ := hevolves.mem hr'
    rw [hframes, hstates, JobRecord.patchAllAt_id]
    by_cases hid : r.id = job
    · rw [if_pos hid, hid]
      exact ⟨f', List.getElem?_set_self hlt, hmoved r hr hid⟩
    · rw [if_neg hid, JobRecord.patchAllAt, if_neg hid]
      obtain ⟨g, hg, htracks⟩ := h.tracks r hr
      exact ⟨g, by rw [← hg]; exact List.getElem?_set_ne (Ne.symm hid), htracks⟩
  · intro i g hg hopen
    rw [hframes] at hg
    rw [hjobs]
    rcases List.getElem?_set_eq_some hg with ⟨rfl, rfl⟩ | ⟨hi, hg⟩
    · -- the job moved and is still unfinished, so its record is still live
      obtain ⟨r, hr, hid⟩ := h.kept i f hf hmove.open
      refine ⟨_, hevolves.keeps r hr ((hmoved r hr hid).live hopen), ?_⟩
      rw [JobRecord.patchAllAt_id, hid]
    · obtain ⟨r, hr, rfl⟩ := h.kept i g hg hopen
      -- another job: its record is live, so it is neither rewritten nor pruned
      have hsame : r.patchAllAt job ps = r := by rw [JobRecord.patchAllAt, if_neg hi]
      have hlive := (h.tracks_frame hr hg).live hopen
      have hkeep := hevolves.keeps r hr (by rw [hsame]; exact hlive)
      rw [hsame] at hkeep
      exact ⟨r, hkeep, rfl⟩
  · intro i g hg
    rw [hframes] at hg
    rw [hstates]
    rcases List.getElem?_set_eq_some hg with ⟨rfl, rfl⟩ | ⟨hi, hg⟩
    · rw [if_pos rfl]
      exact (h.visited i f hf).move hmove
    · rw [if_neg hi]
      exact h.visited i g hg
  · intro i hi
    rw [hframes, List.length_set] at hi
    -- the one that moved had been accepted, so it is none of these
    rw [hstates, if_neg (by omega)]
    exact h.fresh i hi
  · rw [hstarts, hframes, List.length_set]
    exact h.starts
  · intro r' hr'
    rw [hjobs] at hr'
    obtain ⟨r, hr, rfl⟩ := hevolves.mem hr'
    rw [hstarts, JobRecord.patchAllAt_id, JobRecord.patchAllAt_acceptedAt]
    exact h.accepted r hr

/-- The record of a job that has just been accepted. -/
private theorem tracks_newJob {stage : Stage} (h : stage = .idle ∨ stage = .rejected)
    (id : Nat) (environment : Environment) (mode : TxMode) (now : Millis) :
    stage.Tracks [.pending] (JobStore.newJob id environment mode now) := by
  rcases h with rfl | rfl
  · exact ⟨rfl, rfl, iff_of_false nofun nofun, nofun⟩
  · exact ⟨⟨1, by decide, by decide, rfl⟩, rfl, iff_of_false nofun nofun, nofun⟩

/-- Accepting a job adds its record. -/
theorem accept (h : w.JobsInv) {environment : Environment} {mode : TxMode} {f : Frame}
    (hstage : f.pc.stage = .idle ∨ f.pc.stage = .rejected)
    (hframes : w'.frames = w.frames ++ [f])
    (hjobs : w'.jobs = w.jobs.create w.frames.length environment mode w.now)
    (hstates : ∀ i, w'.states i = w.states i)
    (hstarts : w'.starts = w.starts ++ [(w.frames.length, w.now)]) : w'.JobsInv := by
  have hevolves := h.create_evolves environment mode w.now
  have hnew := tracks_newJob hstage w.frames.length environment mode w.now
  have hfresh := h.fresh w.frames.length (Nat.le_refl _)
  refine ⟨?_, ?_, ?_, ?_, ?_, ?_, ?_⟩
  · rw [hjobs]
    refine hevolves.ids_nodup (fun _ => rfl) ?_
    rw [JobStore.ids, List.map_append]
    exact h.ids_concat_nodup
  · intro r hr
    rw [hjobs] at hr
    rw [hframes, hstates]
    obtain ⟨r', hr', rfl⟩ := hevolves.mem hr
    rcases List.mem_append.mp hr' with hold | hold
    · obtain ⟨g, hg, htracks⟩ := h.tracks r' hold
      exact ⟨g, by rw [id_eq, List.getElem?_append_left (h.id_lt hold)]; exact hg, htracks⟩
    · rw [List.mem_singleton.mp hold]
      exact ⟨f, List.getElem?_concat_length, by rw [id_eq, JobStore.newJob, hfresh]; exact hnew⟩
  · intro i g hg hopen
    rw [hframes] at hg
    rw [hjobs]
    rcases List.getElem?_concat_eq_some hg with ⟨rfl, rfl⟩ | hg
    · -- the new record is live, so `create` does not prune it again
      exact ⟨_, hevolves.keeps _ (List.mem_append_right _ (List.mem_singleton_self _)) rfl, rfl⟩
    · obtain ⟨r, hr, rfl⟩ := h.kept i g hg hopen
      have hlive := (h.tracks_frame hr hg).live hopen
      exact ⟨r, hevolves.keeps r (List.mem_append_left _ hr) hlive, rfl⟩
  · intro i g hg
    rw [hframes] at hg
    rw [hstates]
    rcases List.getElem?_concat_eq_some hg with ⟨rfl, rfl⟩ | hg
    · rw [hfresh]
      exact hnew.visited
    · exact h.visited i g hg
  · intro i hi
    rw [hframes, List.length_append, List.length_singleton] at hi
    rw [hstates]
    exact h.fresh i (by omega)
  · rw [hstarts, hframes, List.map_append, h.starts, List.length_append,
      List.length_singleton, List.range_succ]
    rfl
  · intro r hr
    rw [hjobs] at hr
    rw [hstarts]
    obtain ⟨r', hr', rfl⟩ := hevolves.mem hr
    rcases List.mem_append.mp hr' with hold | hold
    · exact List.mem_append_left _ (h.accepted r' hold)
    · rw [List.mem_singleton.mp hold]
      exact List.mem_append_right _ (List.mem_singleton_self _)

end JobsInv

/-- Every step of the service keeps the invariant of its store. -/
theorem jobsInv_step {s : Setup} {w w' : World} {a : Action} (h : w.JobsInv)
    (hstep : step s w a = some w') : w'.JobsInv := by
  cases step_jobs hstep with
  | accepted mode f _ hstage hframes hjobs hstates hstarts _ =>
    exact h.accept hstage hframes hjobs hstates hstarts
  | moved job reply f f' ps _ hf hmove hframes hjobs hstates hstarts _ =>
    exact h.moved hf hmove hframes hjobs hstates hstarts
  | quiet _ hframes hjobs hstates hstarts => exact h.quiet hframes hjobs hstates hstarts

/-- Every record is where its job stands, in every reachable state. -/
theorem jobsInv_reachable {s : Setup} {start : Millis} {w : World}
    (h : Reachable (step s) (World.new s start) w) : w.JobsInv :=
  h.invariant (jobsInv_new s start) fun _ _ _ hinv _ hstep => jobsInv_step hinv hstep

/-! ## A clock that does not go back -/

/-- The step does not turn the clock back. -/
def ClockForward (w : World) (a : Action) : Prop := ∀ now, a = .clock now → w.now ≤ now

instance (w : World) (a : Action) : Decidable (w.ClockForward a) :=
  match a with
  | .clock now => decidable_of_iff (w.now ≤ now) ⟨fun h _ hnow => by cases hnow; exact h,
      fun h => h now rfl⟩
  | .start _ | .getWorkers | .resume _ _ | .resumeRequest _ _ | .resumeDerivation _ _
  | .expire _ | .respondDeadline _ | .abortActiveJobs => isTrue nofun

/-- Only `clock` changes what the clock shows. -/
theorem step_now {s : Setup} {w w' : World} {a : Action} (hclock : ∀ now, a ≠ .clock now)
    (hstep : step s w a = some w') : w'.now = w.now := by
  cases a with
  | clock now => exact absurd rfl (hclock now)
  | start mode =>
    cases hstep
    exact start_now w s mode
  | getWorkers =>
    cases hstep
    exact ensureAddresses_now w s
  | resume job reply =>
    obtain ⟨_, _, _, _, _, rfl⟩ := step_resume hstep
    rw [performAll_now]
  | resumeRequest request reply =>
    obtain ⟨_, _, _, _, _, rfl⟩ := step_resumeRequest hstep
    rw [performAll_now]
  | resumeDerivation index reply =>
    obtain ⟨_, _, _, rfl, _⟩ := step_resumeDerivation hstep
    rfl
  | expire job =>
    obtain ⟨_, rfl⟩ := step_expire hstep
    rfl
  | respondDeadline job =>
    obtain ⟨_, _, _, rfl⟩ := step_respondDeadline hstep
    rfl
  | abortActiveJobs =>
    cases hstep
    rfl

/-- The clock does not go back if it is not turned back. -/
theorem now_le_step {s : Setup} {w w' : World} {a : Action} (hclock : w.ClockForward a)
    (hstep : step s w a = some w') : w.now ≤ w'.now := by
  by_cases hmoved : ∃ now, a = .clock now
  · obtain ⟨now, rfl⟩ := hmoved
    cases hstep
    exact hclock now rfl
  · rw [step_now (fun now hnow => hmoved ⟨now, hnow⟩) hstep]

/-- Every record is stamped in order, up to the present. -/
def StampsInv (w : World) : Prop :=
  ∀ r ∈ w.jobs.jobs, ∀ f : Frame, w.frames[r.id]? = some f → f.pc.stage.Timed w.now r

/-- A new record has one stamp, the present. -/
private theorem timed_newJob {stage : Stage} (h : stage = .idle ∨ stage = .rejected)
    (id : Nat) (environment : Environment) (mode : TxMode) (now : Millis) :
    stage.Timed now (JobStore.newJob id environment mode now) := by
  have hstamps : Stamps.Upto 1 now (JobStore.newJob id environment mode now).timings.stamps := by
    refine ⟨?_, ?_, ?_⟩
    · simp [JobTimings.stamps, JobStore.newJob, Stamps.Le]
    · simp [JobTimings.stamps, JobStore.newJob, Stamps.Le]
    · simp [JobTimings.stamps, JobStore.newJob]
  rcases h with rfl | rfl
  · exact hstamps
  · exact hstamps.mono (by decide)

/-- While the clock does not go back, a step keeps every record stamped in order. -/
theorem stampsInv_step {s : Setup} {w w' : World} {a : Action} (hjobs : w.JobsInv)
    (h : w.StampsInv) (hclock : w.ClockForward a) (hstep : step s w a = some w') :
    w'.StampsInv := by
  have hnow := now_le_step hclock hstep
  intro r' hr' g hg
  cases step_jobs hstep with
  | accepted mode f _ hstage hframes hjobs' _ _ _ =>
    rw [hjobs'] at hr'
    rw [hframes] at hg
    obtain ⟨r, hr, rfl⟩ := (hjobs.create_evolves s.environment mode w.now).mem hr'
    rcases List.mem_append.mp hr with hold | hold
    · rw [id_eq, List.getElem?_append_left (hjobs.id_lt hold)] at hg
      exact (h r hold g hg).later hnow
    · rw [List.mem_singleton.mp hold] at hg ⊢
      have hlast : g = f := Option.some.inj (hg.symm.trans List.getElem?_concat_length)
      subst hlast
      -- stamped with the instant it was accepted at, and nothing else
      exact (timed_newJob hstage _ _ _ _).later hnow
  | moved job reply f f' ps _ hf hmove hframes hjobs' _ _ _ =>
    rw [hjobs'] at hr'
    rw [hframes] at hg
    obtain ⟨r, hr, rfl⟩ := (hjobs.move_evolves hf hmove).mem hr'
    rw [JobRecord.patchAllAt_id] at hg
    rcases List.getElem?_set_eq_some hg with ⟨hid, rfl⟩ | ⟨hid, hg⟩
    · rw [JobRecord.patchAllAt, if_pos hid]
      exact ((h r hr f (hid ▸ hf)).move hmove).later hnow
    · rw [JobRecord.patchAllAt, if_neg hid]
      exact (h r hr g hg).later hnow
  | quiet _ hframes hjobs' _ _ =>
    rw [hjobs'] at hr'
    obtain ⟨f, hf, hpc⟩ := frame_of_map_pc hframes.symm hg
    rw [← hpc]
    exact (h r' hr' f hf).later hnow

/-- Every record is stamped in order, as long as the clock does not go back. -/
theorem stampsInv_reachable {s : Setup} {start : Millis} {w : World}
    (h : ReachableUnder (step s) ClockForward (World.new s start) w) : w.StampsInv :=
  h.invariant' (fun _ hr => nomatch hr) fun _ _ _ hreach hinv hclock hstep =>
    stampsInv_step (jobsInv_reachable hreach.reachable) hinv hclock hstep

/-! ## The life of a job -/

/-- What a job has visited is a way forward, and a finished state only when it has ended. -/
private theorem visited_forward {stage : Stage} {states : List JobState}
    (h : stage.Visited states) : JobState.Forward states ∧
      states.countP JobState.terminal = if stage = .ended then 1 else 0 := by
  -- six ways to be under way: as far as each state short of the last
  have hcases : ∀ n, 0 < n → n ≤ 6 → n = 1 ∨ n = 2 ∨ n = 3 ∨ n = 4 ∨ n = 5 ∨ n = 6 := by
    intro n hpos hle
    omega
  by_cases hopen : stage = .ended
  · subst hopen
    rcases h with rfl | ⟨n, hpos, hle, rfl⟩
    · exact ⟨.inl (List.prefix_refl _), rfl⟩
    · have htake : JobState.pipeline.take n <+: JobState.pipeline.dropLast := by
        rcases hcases n hpos hle with rfl | rfl | rfl | rfl | rfl | rfl <;> decide
      refine ⟨.inr ⟨_, ?_, htake, rfl⟩, ?_⟩
      · rcases hcases n hpos hle with rfl | rfl | rfl | rfl | rfl | rfl <;> decide
      · rcases hcases n hpos hle with rfl | rfl | rfl | rfl | rfl | rfl <;> rfl
  · obtain ⟨n, hpos, hle, rfl⟩ := h.take hopen
    rw [if_neg hopen]
    refine ⟨.inl (List.take_prefix _ _), ?_⟩
    rcases hcases n hpos hle with rfl | rfl | rfl | rfl | rfl | rfl <;> rfl

/-- A record has a finishing stamp exactly when it is finished. -/
private theorem finished_iff {stage : Stage} {now : Millis} {states : List JobState}
    {r : JobRecord} (h : stage.Tracks states r) (htimed : stage.Timed now r) :
    r.timings.finishedAt.isSome = true ↔ r.state.terminal = true := by
  by_cases hopen : stage = .ended
  · subst hopen
    exact iff_of_true (h.finished rfl) h.terminal
  · -- an unfinished job has no stamp in the last place
    have hblank := (htimed.mono (Stage.stamped_le hopen)).blank r.timings.finishedAt
      (List.mem_singleton_self _)
    rw [hblank, h.live hopen]
    exact iff_of_false nofun nofun

/-- Stamps in order give durations that are not negative. -/
theorem durationsFor_nonneg {t : JobTimings} (h : t.stamps.Pairwise Stamps.Le) :
    ∀ d ∈ durationsFor t, 0 ≤ d.2 := by
  have hspan : ∀ {i j : Nat} {a b : Option Millis}, i < j → t.stamps[i]? = some a →
      t.stamps[j]? = some b → ∀ ms, span a b = some ms → 0 ≤ ms := by
    intro i j a b hij ha hb ms hms
    have hle := Stamps.le_of_ordered h hij ha hb
    unfold span at hms
    split at hms
    · rename_i x y
      have hxy := hle x rfl y rfl
      rw [← Option.some.inj hms]
      exact Int.sub_nonneg_of_le hxy
    · cases hms
  intro d hd
  obtain ⟨entry, hentry, hsome⟩ := List.mem_filterMap.mp hd
  obtain ⟨ms, hms, rfl⟩ := Option.map_eq_some_iff.mp hsome
  simp only [List.mem_cons, List.not_mem_nil, or_false] at hentry
  -- five spans, each between two places of the row
  rcases hentry with rfl | rfl | rfl | rfl | rfl
  · exact hspan (show 0 < 1 by omega) rfl rfl ms hms
  · exact hspan (show 2 < 3 by omega) rfl rfl ms hms
  · exact hspan (show 4 < 5 by omega) rfl rfl ms hms
  · exact hspan (show 5 < 6 by omega) rfl rfl ms hms
  · exact hspan (show 0 < 7 by omega) rfl rfl ms hms

/-- A finished record is never written again. -/
theorem JobsInv.frozen {s : Setup} {w w' : World} {a : Action} (h : w.JobsInv)
    (hstep : step s w a = some w') {job : Nat} {r r' : JobRecord}
    (hr : w.jobs.get? job = some r) (hfinished : r.state.terminal = true)
    (hr' : w'.jobs.get? job = some r') : r' = r := by
  obtain ⟨hmem, rfl⟩ := JobStore.mem_of_get? hr
  obtain ⟨hmem', hid'⟩ := JobStore.mem_of_get? hr'
  cases step_jobs hstep with
  | accepted mode f _ _ _ hjobs _ _ _ =>
    -- a record of the store after `create` is new, or stood there before
    rw [hjobs] at hmem'
    obtain ⟨r₀, hr₀, rfl⟩ := (h.create_evolves s.environment mode w.now).mem hmem'
    rcases List.mem_append.mp hr₀ with hold | hold
    · exact List.inj_on_of_nodup_map h.ids_nodup hold hmem hid'
    · have hlt := h.id_lt hmem
      rw [List.mem_singleton.mp hold] at hid'
      have hid : w.frames.length = r.id := hid'
      omega
  | moved job reply f f' ps _ hf hmove _ hjobs _ _ _ =>
    rw [hjobs] at hmem'
    obtain ⟨r₀, hr₀, rfl⟩ := (h.move_evolves hf hmove).mem hmem'
    rw [JobRecord.patchAllAt_id] at hid'
    have hsame : r₀ = r := List.inj_on_of_nodup_map h.ids_nodup hr₀ hmem hid'
    subst hsame
    -- the job of a finished record has ended and is not the one that moved
    have hne : r₀.id ≠ job := by
      rintro rfl
      rw [(h.tracks_frame hmem hf).live hmove.open] at hfinished
      cases hfinished
    rw [JobRecord.patchAllAt, if_neg hne]
  | quiet _ _ hjobs _ _ =>
    rw [hjobs, hr] at hr'
    exact (Option.some.inj hr').symm

/-- The life of a job, as its record and the writes made on it show it. -/
structure Lifecycle (s : Setup) (w : World) (job : Nat) (f : Frame) : Prop where
  /-- The state only moves forward, or jumps once to `failed`. -/
  forward : JobState.Forward (w.states job)
  /-- One terminal write when the run has completed, none before. -/
  terminal_once : (w.states job).countP JobState.terminal = if f.pc = .ended then 1 else 0
  present : f.pc ≠ .ended → (w.jobs.get? job).isSome = true
  state : ∀ r ∈ w.jobs.get? job, (w.states job).getLast? = some r.state
  finishedAt_iff : ∀ r ∈ w.jobs.get? job,
    r.timings.finishedAt.isSome = true ↔ r.state.terminal = true
  failureReason_iff : ∀ r ∈ w.jobs.get? job, r.failureReason.isSome = true ↔ r.state = .failed
  acceptedAt : ∀ r ∈ w.jobs.get? job, ∀ time,
    Event.started job time ∈ w.history ↔ time = r.timings.acceptedAt
  ordered : ∀ r ∈ w.jobs.get? job, r.timings.stamps.Pairwise Stamps.Le
  durations_nonneg : ∀ v ∈ w.jobs.view job, ∀ d ∈ v.durations, 0 ≤ d.2
  /-- Nothing changes a finished record afterwards. -/
  frozen : ∀ a w', step s w a = some w' → ∀ r ∈ w.jobs.get? job, r.state.terminal = true →
    ∀ r' ∈ w'.jobs.get? job, r' = r

/-- The last stage has one `await`. -/
private theorem stage_ended_iff {pc : Pc} : pc.stage = .ended ↔ pc = .ended := by
  cases pc <;> simp [Pc.stage]

/-- While the clock does not go back, every job accepted so far lives such a life, whatever
    its `await`s were answered. -/
theorem job_lifecycle {s : Setup} {start : Millis} {w : World}
    (h : ReachableUnder (step s) ClockForward (World.new s start) w) {job : Nat} {f : Frame}
    (hf : w.frames[job]? = some f) : Lifecycle s w job f := by
  have hinv := jobsInv_reachable h.reachable
  obtain ⟨hforward, hcount⟩ := visited_forward (hinv.visited job f hf)
  have htracks : ∀ r ∈ w.jobs.get? job, f.pc.stage.Tracks (w.states job) r := by
    intro r hr
    obtain ⟨hmem, rfl⟩ := JobStore.mem_of_get? hr
    exact hinv.tracks_frame hmem hf
  have htimed : ∀ r ∈ w.jobs.get? job, f.pc.stage.Timed w.now r := by
    intro r hr
    obtain ⟨hmem, rfl⟩ := JobStore.mem_of_get? hr
    exact stampsInv_reachable h r hmem f hf
  refine ⟨hforward, ?_, ?_, ?_, ?_, ?_, ?_, ?_, ?_, ?_⟩
  · simp only [hcount, stage_ended_iff]
  · intro hopen
    obtain ⟨r, hr, rfl⟩ := hinv.kept job f hf fun hstage => hopen (stage_ended_iff.mp hstage)
    rw [JobStore.get?_of_mem hinv.ids_nodup hr]
    rfl
  · exact fun r hr => (htracks r hr).state
  · exact fun r hr => finished_iff (htracks r hr) (htimed r hr)
  · exact fun r hr => (htracks r hr).failure
  · intro r hr time
    obtain ⟨hmem, rfl⟩ := JobStore.mem_of_get? hr
    have haccepted := hinv.accepted r hmem
    -- ids are positions, so each job was accepted once
    have hkeys : (w.starts.map Prod.fst).Nodup := hinv.starts ▸ List.nodup_range
    have hstarted : ∀ time, Event.started r.id time ∈ w.history ↔ (r.id, time) ∈ w.starts := by
      intro time
      rw [starts, List.mem_filterMap]
      constructor
      · exact fun hmem => ⟨_, hmem, rfl⟩
      · rintro ⟨event, hmem, hevent⟩
        cases event <;> simp only [Event.start?, Option.some.injEq, Prod.mk.injEq,
          reduceCtorEq] at hevent
        rwa [hevent.1, hevent.2] at hmem
    rw [hstarted]
    constructor
    · intro htime
      exact congrArg Prod.snd (List.inj_on_of_nodup_map hkeys htime haccepted rfl)
    · rintro rfl
      exact haccepted
  · exact fun r hr => (htimed r hr).ordered
  · intro v hv d hd
    obtain ⟨r, hr, rfl⟩ := Option.map_eq_some_iff.mp hv
    exact durationsFor_nonneg (htimed r hr).ordered d hd
  · exact fun a w' hstep r hr hfinished r' hr' => hinv.frozen hstep hr hfinished hr'

/-! ## A run to the end -/

/-- A deployment whose MPC signs for whoever a transaction is sent to. -/
def sampleSetup : Setup where
  env :=
    { solRpcUrlDevnet := "http://localhost:8899"
      solSk := "[1]"
      bidirectional := { paths := 1 } }
  libs :=
    { contractAddress := Environment.name
      publicKeyOf := fun sk => .ok sk
      deriveAddress := fun _ _ _ path _ => "0x" ++ path
      getRequestIdBidirectional := RequestIdArgs.path
      finalizeTransactionSigning := fun unsigned _ => .ok unsigned.to
      serializeTransaction := UnsignedTransaction.to
      keccak256 := id
      recoverAddress := fun hash _ _ _ => .ok hash
      getAddress := .ok
      encodeTransfer := fun recipient _ => recipient
      createPublicClient := fun _ _ => .ok ()
      newPublicKey := fun _ => .ok ()
      privateKeyToAccount := .ok }
  environment := .dev

/-- One job, from its acceptance to the MPC's respond. -/
def respondedRun : List Action :=
  [.start .ethSelfTransfer, .resumeDerivation 0 .resume, .resumeDerivation 0 .resume,
    .resume 0 .resume, .resume 0 .resume, .resume 0 .resume, .resume 0 .resume,
    .clock 5, .resume 0 (.balance 10000000000000000), .resume 0 (.nonceAndFees 7 ⟨1, 1⟩),
    .resume 0 (.gas 21000), .resume 0 .instruction, .resume 0 (.solanaTx "sig"),
    .clock 905, .resume 0 (.rsv ⟨"r", "s", 0⟩), .resume 0 .resume, .resume 0 (.txHash "0xab"),
    .clock 12905, .resume 0 (.receipt true), .clock 812905,
    .resume 0 (.respond (.text "0x01"))]

/-- The state that run ends in. -/
def respondedWorld : World :=
  (exec (step sampleSetup) (World.new sampleSetup 0) respondedRun).getD (World.new sampleSetup 0)

theorem exec_respondedRun :
    exec (step sampleSetup) (World.new sampleSetup 0) respondedRun = some respondedWorld :=
  exec_getD (by decide +kernel) _

/-- A job that went through the whole pipeline. -/
theorem respondedRun_lifecycle : ∃ f : Frame, respondedWorld.frames[0]? = some f ∧
    f.pc = .ended ∧ Lifecycle sampleSetup respondedWorld 0 f := by
  have hclock : Along (step sampleSetup) ClockForward (World.new sampleSetup 0) respondedRun := by
    decide +kernel
  exact ⟨_, rfl, by decide +kernel, job_lifecycle (.of_exec exec_respondedRun hclock) rfl⟩

end World

end ContractPinger
