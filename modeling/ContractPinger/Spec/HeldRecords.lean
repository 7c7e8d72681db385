import ContractPinger.Spec.JobLifecycle
import ContractPinger.Spec.Retention

/-!
# What a service remembers of its jobs

The service writes on its store what a run of the store by itself may write: each step is a
few calls of such a run, none of them on a finished record. So what the store retains of any
such run it retains of the jobs of the service: every job that has not ended, and of those
that have, the ones that finished last.

## Key results

- `Stage.Move.terminal_iff`: a move finishes the record exactly when it ends the job
- `remembers_step`: a step of the service is a run of the store
- `memory_exact`: what is held of the jobs, and what it takes to forget one that has ended
- `endedIn_of_finished` / `forgotten_of_gone`: what a lookup of a job tells for good
-/

namespace ContractPinger

open Machine

/-- The first of several patches. -/
theorem JobRecord.patchAllAt_cons (id : Nat) (p : JobPatch) (rest : List JobPatch) :
    JobRecord.patchAllAt id (p :: rest) =
      JobRecord.patchAllAt id rest ∘ JobRecord.patchAt id p := by
  funext r
  by_cases hr : r.id = id <;> simp [patchAllAt, patchAt, hr]

/-- No patch changes nothing. -/
theorem JobRecord.patchAllAt_nil (id : Nat) : JobRecord.patchAllAt id [] = fun r => r := by
  funext r
  unfold patchAllAt
  split <;> rfl

/-- A move finishes a record exactly when it ends the job. -/
theorem Stage.Move.terminal_iff {now : Millis} {a b : Stage} {ps : List JobPatch} {r : JobRecord}
    (h : Move now a b ps) (hlive : r.state.terminal = false) :
    (ps.foldl JobRecord.apply r).state.terminal = true ↔ b = .ended := by
  have hquiet : ∀ state : JobState, state = r.state → b ≠ .ended →
      (state.terminal = true ↔ b = .ended) := by
    rintro state rfl hopen
    rw [hlive]
    exact iff_of_false nofun hopen
  cases h with
  | stay stage ps hrun hsilent =>
    refine hquiet _ (foldl_silent hsilent r).1 ?_
    rintro rfl
    cases hrun
  | throw stage ps hrun hsilent => exact hquiet _ (foldl_silent hsilent r).1 nofun
  -- within the pipeline no state that is written is final
  | ask => exact hquiet _ rfl nofun
  | lease => exact hquiet _ rfl nofun
  | sign => exact hquiet _ rfl nofun
  | request => exact iff_of_false nofun nofun
  | verify => exact iff_of_false nofun nofun
  | broadcast => exact iff_of_false nofun nofun
  | confirm => exact iff_of_false nofun nofun
  | respond => exact iff_of_true rfl rfl
  | mismatch => exact iff_of_true rfl rfl
  | fail => exact iff_of_true rfl rfl

/-! ## Stretches of calls on the store -/

namespace StoreRun

variable {run run' : StoreRun} {id : Nat}

/-- The patches a job makes from one `await` to the next are a run of the store. -/
theorem updateAll_reachable {ps : List JobPatch} (hlive : run.Live id)
    (hends : JobStore.EndsLast ps) :
    Reachable step run
      { store := run.store.updateAll id ps
        created := run.created.map (JobRecord.patchAllAt id ps) } := by
  induction ps generalizing run with
  | nil =>
    rw [JobRecord.patchAllAt_nil, List.map_id']
    exact .refl
  | cons p rest ih =>
    let next : StoreRun :=
      { store := run.store.update id p
        created := run.created.map (JobRecord.patchAt id p) }
    have hfirst : Reachable step run next := .tail (.update id p) .refl trivial (if_pos hlive)
    rw [JobRecord.patchAllAt_cons, ← List.map_map]
    cases rest with
    | nil =>
      rw [JobRecord.patchAllAt_nil, List.map_id']
      exact hfirst
    | cons q rest =>
      -- with more patches to come, this one has not finished the record
      have hnext : next.Live id := by
        intro r' hr' hid
        obtain ⟨r, hr, rfl⟩ := List.mem_map.mp hr'
        rw [JobRecord.patchAt_id] at hid
        rw [JobRecord.patchAt, if_pos hid]
        exact JobStore.apply_live (hlive r hr hid) (hends p (by simp))
      exact hfirst.trans (ih hnext fun p' hp' => hends p' (by simp [hp']))

/-- A finished record stays in the history as it is. -/
theorem keeps_finished (h : Reachable step run run') {r : JobRecord} (hr : r ∈ run.created)
    (hfinished : r.state.terminal = true) : r ∈ run'.created := by
  -- a patch is for a live record, so it misses a finished one
  have hmap : ∀ {created : List JobRecord} {id : Nat} {patch : JobPatch}, r ∈ created →
      (∀ r ∈ created, r.id = id → r.state.terminal = false) →
      r ∈ created.map (JobRecord.patchAt id patch) := by
    intro created id patch hr hlive
    refine List.mem_map.mpr ⟨r, hr, if_neg fun hid => ?_⟩
    rw [hlive r hr hid] at hfinished
    cases hfinished
  refine h.invariant (I := fun run => r ∈ run.created) hr fun run c run' hr _ hs => ?_
  cases c with
  | create id environment mode now =>
    simp only [step, Option.ite_none_left_eq_some, Option.some.injEq] at hs
    obtain ⟨-, rfl⟩ := hs
    exact List.mem_append_left _ hr
  | update id patch =>
    simp only [step, Option.ite_none_right_eq_some, Option.some.injEq] at hs
    obtain ⟨hlive, rfl⟩ := hs
    exact hmap hr hlive
  | fail id reason error now =>
    simp only [step, Option.ite_none_right_eq_some, Option.some.injEq] at hs
    obtain ⟨hlive, rfl⟩ := hs
    exact hmap hr hlive

end StoreRun

namespace World

variable {s : Setup} {w w' : World} {run run' : StoreRun}

/-! ## The service as a run of its store -/

/-- A run of the store by itself that has come to the store of the service: one record for
    each job, in the order of acceptance, finished exactly if the job has ended. -/
structure Remembers (w : World) (run : StoreRun) : Prop where
  store : run.store = w.jobs
  ids : run.created.map JobRecord.id = List.range w.frames.length
  finished : ∀ r ∈ run.created, ∀ f : Frame, w.frames[r.id]? = some f →
    (r.state.terminal = true ↔ f.pc.stage = .ended)

/-- A new service has a new store. -/
theorem remembers_new (s : Setup) (now : Millis) : (World.new s now).Remembers
    (StoreRun.new s.maxJobs s.env.bidirectional.retainedJobs s.maxActiveJobs) where
  store := rfl
  ids := rfl
  finished _ hr := nomatch hr

namespace Remembers

/-- The records created are those of the jobs accepted. -/
theorem id_lt (h : w.Remembers run) {r : JobRecord} (hr : r ∈ run.created) :
    r.id < w.frames.length := by
  have hid : r.id ∈ run.created.map JobRecord.id := List.mem_map_of_mem hr
  rwa [h.ids, List.mem_range] at hid

/-- The record of a job that has not ended is live. -/
theorem live (h : w.Remembers run) {job : Nat} {f : Frame} (hf : w.frames[job]? = some f)
    (hopen : f.pc.stage ≠ .ended) : run.Live job := by
  rintro r hr rfl
  rw [← Bool.not_eq_true, h.finished r hr f hf]
  exact hopen

/-- The history and the service agree on who has ended. -/
theorem ended_eq (h : w.Remembers run) : run.created.map (fun r => r.state.terminal) =
    w.frames.map fun f => decide (f.pc.stage = .ended) := by
  have hlength : run.created.length = w.frames.length := by
    rw [← List.length_map (f := JobRecord.id), h.ids, List.length_range]
  refine List.ext_getElem (by simp [hlength]) fun i hi hi' => ?_
  rw [List.length_map] at hi hi'
  rw [List.getElem_map, List.getElem_map]
  -- ids are positions
  have hid : run.created[i].id = i := by
    have hget := List.getElem_map JobRecord.id (h := by rwa [List.length_map])
    simp only [h.ids, List.getElem_range] at hget
    exact hget.symm
  have hf : w.frames[run.created[i].id]? = some w.frames[i] := by
    rw [hid]
    exact List.getElem?_eq_getElem hi'
  have hiff := h.finished _ (List.getElem_mem hi) _ hf
  rw [Bool.eq_iff_iff, decide_eq_true_eq]
  exact hiff

end Remembers

/-- A step of the service is a run of its store. -/
theorem remembers_step {a : Action} (h : w.Remembers run) (hstep : step s w a = some w') :
    ∃ run', w'.Remembers run' ∧ Reachable StoreRun.step run run' := by
  obtain ⟨store, created⟩ := run
  obtain rfl : store = w.jobs := h.store
  cases step_jobs hstep with
  | accepted mode f _ hstage hframes hjobs _ _ _ =>
    -- the new id is the number of jobs so far
    have hfresh : w.frames.length ∉ created.map JobRecord.id := by
      rw [h.ids, List.mem_range]
      exact Nat.lt_irrefl _
    refine ⟨_, ⟨hjobs.symm, ?_, ?_⟩,
      .tail (.create w.frames.length s.environment mode w.now) .refl trivial (if_neg hfresh)⟩
    · rw [List.map_append, h.ids, hframes, List.length_append, List.length_singleton,
        List.range_succ]
      rfl
    · intro r hr g hg
      rw [hframes] at hg
      cases List.mem_append.mp hr with
      | inl hr =>
        rw [List.getElem?_append_left (h.id_lt hr)] at hg
        exact h.finished r hr g hg
      | inr hr =>
        rw [List.mem_singleton.mp hr] at hg ⊢
        have hlast : g = f := Option.some.inj (hg.symm.trans List.getElem?_concat_length)
        subst hlast
        refine iff_of_false nofun ?_
        rcases hstage with hstage | hstage <;> rw [hstage] <;> exact nofun
  | moved job reply f f' ps _ hf hmove hframes hjobs _ _ _ =>
    -- the moved job has not ended, so its record takes the patches
    have hlive : StoreRun.Live ⟨w.jobs, created⟩ job := h.live hf hmove.open
    have hlt : job < w.frames.length := (List.getElem?_eq_some_iff.mp hf).1
    refine ⟨_, ⟨hjobs.symm, ?_, ?_⟩, StoreRun.updateAll_reachable hlive hmove.endsLast⟩
    · rw [List.map_map, hframes, List.length_set, ← h.ids]
      exact List.map_congr_left fun r _ => JobRecord.patchAllAt_id job ps r
    · intro r' hr' g hg
      obtain ⟨r, hr, rfl⟩ := List.mem_map.mp hr'
      rw [JobRecord.patchAllAt_id, hframes] at hg
      rcases List.getElem?_set_eq_some hg with ⟨hid, rfl⟩ | ⟨hid, hg⟩
      · rw [JobRecord.patchAllAt, if_pos hid]
        exact hmove.terminal_iff (hlive r hr hid)
      · rw [JobRecord.patchAllAt, if_neg hid]
        exact h.finished r hr g hg
  | quiet _ hframes hjobs _ _ =>
    refine ⟨_, ⟨hjobs.symm, ?_, ?_⟩, .refl⟩
    · rw [h.ids, ← List.length_map (f := Frame.pc), ← hframes, List.length_map]
    · intro r hr g hg
      obtain ⟨f, hf, hpc⟩ := frame_of_map_pc hframes.symm hg
      rw [← hpc]
      exact h.finished r hr f hf

/-- A reachable service has the store of some run of the store. -/
theorem remembers_reachable {start : Millis} (h : Reachable (step s) (World.new s start) w) :
    ∃ run, w.Remembers run ∧ Reachable StoreRun.step
      (.new s.maxJobs s.env.bidirectional.retainedJobs s.maxActiveJobs) run :=
  h.simulation (remembers_new s start) fun _ _ _ _ hrun _ hstep => remembers_step hrun hstep

/-! ## What is held, and what is forgotten -/

/-- The finished records the service holds. -/
def heldFinished (w : World) : List JobRecord := w.jobs.jobs.filter fun r => r.state.terminal

/-- How many jobs have ended. -/
def endedCount (w : World) : Nat := w.frames.countP fun f => decide (f.pc.stage = .ended)

/-- As many jobs have ended as records created are finished. -/
theorem Remembers.endedCount_eq (h : w.Remembers run) :
    w.endedCount = run.created.countP fun r => r.state.terminal := by
  have hmaps := congrArg (List.countP id) h.ended_eq
  rw [List.countP_map, List.countP_map] at hmaps
  exact hmaps.symm

/-- The service holds the records of all jobs that have not ended, and as many of those that
    have as it retains, in the order the jobs were accepted in. A finished record that it once
    held it holds as it was, or it holds a full measure of others instead, each of which
    finished no earlier. -/
theorem memory_exact {start : Millis} (h : Reachable (step s) (World.new s start) w)
    (h' : Reachable (step s) w w') :
    w'.jobs.ids.Sublist (List.range w'.frames.length) ∧
    (∀ (job : Nat) (f : Frame), w'.frames[job]? = some f → f.pc ≠ .ended →
      ∃ r, w'.jobs.get? job = some r ∧ r.state.terminal = false) ∧
    (∀ r ∈ w'.jobs.jobs, r.state.terminal = false →
      ∃ f : Frame, w'.frames[r.id]? = some f ∧ f.pc ≠ .ended) ∧
    w'.heldFinished.length = min s.env.bidirectional.retainedJobs w'.endedCount ∧
    ∀ (job : Nat) (r : JobRecord), w.jobs.get? job = some r → r.state.terminal = true →
      w'.jobs.get? job = some r ∨
        w'.jobs.get? job = none ∧
        w'.heldFinished.length = s.env.bidirectional.retainedJobs ∧
        ∀ held ∈ w'.heldFinished, r.finishedAt ≤ held.finishedAt := by
  obtain ⟨run, hrun, hreach⟩ := remembers_reachable h
  obtain ⟨run', hrun', hreach'⟩ :=
    h'.simulation hrun fun _ _ _ _ hrun _ hstep => remembers_step hrun hstep
  obtain ⟨hretains, -⟩ := StoreRun.retains_reachable hreach
  obtain ⟨hretains', hretained⟩ := StoreRun.retains_reachable (hreach.trans hreach')
  rw [hrun'.store] at hretains' hretained
  rw [hrun.store] at hretains
  have hcount : w'.heldFinished.length = min s.env.bidirectional.retainedJobs w'.endedCount := by
    rw [hrun'.endedCount_eq, heldFinished, ← List.countP_eq_length_filter, hretains'.countP_eq,
      hretained]
  refine ⟨?_, ?_, ?_, hcount, ?_⟩
  · rw [← hrun'.ids]
    exact hretains'.held.map JobRecord.id
  · intro job f hf hopen
    have hinv := jobsInv_reachable (h.trans h')
    have hstage : f.pc.stage ≠ .ended := fun hended => hopen (by
      cases hpc : f.pc <;> rw [hpc] at hended <;> first | rfl | cases hended)
    obtain ⟨r, hr, rfl⟩ := hinv.kept job f hf hstage
    exact ⟨r, JobStore.get?_of_mem hinv.ids_nodup hr, (hinv.tracks_frame hr hf).live hstage⟩
  · -- what is held unfinished belongs to a job that goes on
    intro r hr hlive
    obtain ⟨f, hf, htracks⟩ := (jobsInv_reachable (h.trans h')).tracks r hr
    refine ⟨f, hf, fun hended => ?_⟩
    rw [hended] at htracks
    rw [htracks.terminal] at hlive
    cases hlive
  · intro job r hr hfinished
    obtain ⟨hmem, rfl⟩ := JobStore.mem_of_get? hr
    have hcreated : r ∈ run'.created :=
      StoreRun.keeps_finished hreach' (hretains.held.subset hmem) hfinished
    by_cases hheld : r ∈ w'.jobs.jobs
    · exact .inl (JobStore.get?_of_mem hretains'.store_ids hheld)
    · refine .inr ⟨?_, ?_, ?_⟩
      · -- a record of that id would be the one that is gone
        refine Option.eq_none_iff_forall_ne_some.mpr fun r' hr' => hheld ?_
        obtain ⟨hmem', hid⟩ := JobStore.mem_of_get? hr'
        have hsame : r' = r := List.inj_on_of_nodup_map hretains'.ids
          (hretains'.held.subset hmem') hcreated hid
        exact hsame ▸ hmem'
      · have hfull := hretains'.newest.card_eq_of_dropped (d := r) (by simp [hcreated, hfinished])
          (by simp [hheld])
        rwa [card_finished hretains'.store_ids, List.countP_eq_length_filter, hretained] at hfull
      · intro held hin
        obtain ⟨hin, hterminal⟩ := List.mem_filter.mp hin
        exact hretains'.newest.newest r (by simp [hcreated, hfinished]) (by simp [hheld]) held
          (by simp [hin, hterminal])

/-! ## What is known of a job for good -/

/-- The job has ended, with this state the last that was written on its record. -/
def EndedIn (w : World) (job : Nat) (state : JobState) : Prop :=
  ∃ f : Frame, w.frames[job]? = some f ∧ f.pc.stage = .ended ∧
    (w.states job).getLast? = some state

/-- The job has ended, and besides it as many as are retained. -/
def Forgotten (s : Setup) (w : World) (job : Nat) : Prop :=
  (∃ f : Frame, w.frames[job]? = some f ∧ f.pc.stage = .ended) ∧
    s.env.bidirectional.retainedJobs < w.endedCount

/-- No step adds to what happened to a job that has ended, or takes it away. -/
theorem ended_step {a : Action} (hstep : step s w a = some w') {job : Nat} {f : Frame}
    (hf : w.frames[job]? = some f) (hended : f.pc.stage = .ended) :
    (∃ f' : Frame, w'.frames[job]? = some f' ∧ f'.pc.stage = .ended) ∧
      w'.states job = w.states job := by
  cases step_jobs hstep with
  | accepted mode g _ _ hframes _ hstates _ _ =>
    have hlt : job < w.frames.length := (List.getElem?_eq_some_iff.mp hf).1
    refine ⟨⟨f, ?_, hended⟩, hstates job⟩
    rw [hframes, List.getElem?_append_left hlt]
    exact hf
  | moved other reply g g' ps _ hg hmove hframes _ hstates _ _ =>
    -- a job that has ended does not move
    have hne : other ≠ job := by
      rintro rfl
      rw [hf] at hg
      cases hg
      exact hmove.open hended
    refine ⟨⟨f, ?_, hended⟩, ?_⟩
    · rw [hframes, List.getElem?_set_ne hne]
      exact hf
    · rw [hstates, if_neg (Ne.symm hne)]
  | quiet _ hframes _ hstates _ =>
    obtain ⟨f', hf', hpc⟩ := frame_of_map_pc hframes hf
    exact ⟨⟨f', hf', hpc ▸ hended⟩, hstates job⟩

/-- A job that has ended stays ended. -/
theorem endedCount_step {a : Action} (hstep : step s w a = some w') :
    w.endedCount ≤ w'.endedCount := by
  cases step_jobs hstep with
  | accepted mode g _ _ hframes _ _ _ _ =>
    rw [endedCount, endedCount, hframes, List.countP_append]
    exact Nat.le_add_right _ _
  | moved other reply g g' ps _ hg hmove hframes _ _ _ _ =>
    obtain ⟨hlt, rfl⟩ := List.getElem?_eq_some_iff.mp hg
    rw [endedCount, endedCount, hframes, List.countP_set hlt]
    simp [hmove.open]
  | quiet _ hframes _ _ _ =>
    have hcount := congrArg (List.countP fun pc => decide (pc.stage = .ended)) hframes
    rw [List.countP_map, List.countP_map] at hcount
    exact Nat.le_of_eq hcount.symm

/-- How a job ended does not change. -/
theorem EndedIn.step {a : Action} {job : Nat} {state : JobState} (h : w.EndedIn job state)
    (hstep : World.step s w a = some w') : w'.EndedIn job state := by
  obtain ⟨f, hf, hended, hlast⟩ := h
  obtain ⟨⟨f', hf', hended'⟩, hstates⟩ := ended_step hstep hf hended
  exact ⟨f', hf', hended', hstates ▸ hlast⟩

/-- A job forgotten is not remembered again. -/
theorem Forgotten.step {a : Action} {job : Nat} (h : Forgotten s w job)
    (hstep : World.step s w a = some w') : Forgotten s w' job := by
  obtain ⟨⟨f, hf, hended⟩, hmany⟩ := h
  exact ⟨(ended_step hstep hf hended).1, Nat.lt_of_lt_of_le hmany (endedCount_step hstep)⟩

/-- A finished record tells how its job has ended. -/
theorem endedIn_of_finished {start : Millis} (h : Reachable (step s) (World.new s start) w)
    {job : Nat} {r : JobRecord} (hr : w.jobs.get? job = some r)
    (hfinished : r.state.terminal = true) : w.EndedIn job r.state := by
  obtain ⟨hmem, rfl⟩ := JobStore.mem_of_get? hr
  obtain ⟨f, hf, htracks⟩ := (jobsInv_reachable h).tracks r hmem
  refine ⟨f, hf, ?_, htracks.state⟩
  by_contra hopen
  rw [htracks.live hopen] at hfinished
  cases hfinished

/-- A job whose record is gone is forgotten. -/
theorem forgotten_of_gone {start : Millis} (h : Reachable (step s) (World.new s start) w)
    {job : Nat} (hjob : job < w.frames.length) (hgone : w.jobs.get? job = none) :
    Forgotten s w job := by
  obtain ⟨run, hrun, hreach⟩ := remembers_reachable h
  obtain ⟨hretains, hretained⟩ := StoreRun.retains_reachable hreach
  rw [hrun.store] at hretains hretained
  -- the record the job has in the history
  have hid : job ∈ run.created.map JobRecord.id := by
    rw [hrun.ids, List.mem_range]
    exact hjob
  obtain ⟨r, hr, rfl⟩ := List.mem_map.mp hid
  have hout : r ∉ w.jobs.jobs := by
    intro hin
    rw [JobStore.get?_of_mem hretains.store_ids hin] at hgone
    cases hgone
  have hfinished : r.state.terminal = true := by
    by_contra hlive
    rw [Bool.not_eq_true] at hlive
    exact hout (hretains.live r hr hlive)
  have hf := List.getElem?_eq_getElem hjob
  refine ⟨⟨_, hf, (hrun.finished r hr _ hf).mp hfinished⟩, ?_⟩
  -- it is out although all that is retained is held
  have hmem : r ∈ finished run.created := by simp [hr, hfinished]
  have hnot : r ∉ finished w.jobs.jobs := by simp [hout]
  have hfull := hretains.newest.card_eq_of_dropped hmem hnot
  have hless : (finished w.jobs.jobs).card < (finished run.created).card :=
    Finset.card_lt_card ⟨hretains.newest.subset, fun hsub => hnot (hsub hmem)⟩
  rw [hfull, hretained, card_finished hretains.ids] at hless
  rw [hrun.endedCount_eq]
  exact hless

/-- A service that retains one finished job, and lacks the key its jobs need. -/
def forgetfulSetup : Setup :=
  { sampleSetup with env := { sampleSetup.env with
      solSk := ""
      bidirectional := { paths := 1, retainedJobs := 1 } } }

/-- A job that fails at once. -/
def failingRun (job : Nat) (now : Millis) : List Action :=
  [.clock now, .start .ethSelfTransfer, .resume job .resume]

/-- The service after its first job. -/
def forgetfulWorld : World :=
  (exec (step forgetfulSetup) (World.new forgetfulSetup 0) (failingRun 0 5)).getD
    (World.new forgetfulSetup 0)

/-- And after its second, with a third that has not ended. -/
def forgetfulWorld' : World :=
  (exec (step forgetfulSetup) forgetfulWorld (failingRun 1 9 ++ [.start .ethSelfTransfer])).getD
    forgetfulWorld

/-- Of the two jobs that have ended one is held, next to the one that has not. -/
theorem forgetfulRun_memory : forgetfulWorld'.endedCount = 2 ∧
    forgetfulWorld'.heldFinished.length = 1 ∧
    (∃ r, forgetfulWorld'.jobs.get? 2 = some r ∧ r.state.terminal = false) ∧
    ∀ r ∈ forgetfulWorld'.jobs.jobs, r.state.terminal = false → r.id = 2 := by
  have hfirst : exec (step forgetfulSetup) (World.new forgetfulSetup 0) (failingRun 0 5) =
      some forgetfulWorld := exec_getD (by decide +kernel) _
  have hsecond : exec (step forgetfulSetup) forgetfulWorld
      (failingRun 1 9 ++ [.start .ethSelfTransfer]) = some forgetfulWorld' :=
    exec_getD (by decide +kernel) _
  obtain ⟨-, hopen, hlive, hcount, -⟩ :=
    memory_exact (reachable_of_exec hfirst) (reachable_of_exec hsecond)
  have hended : forgetfulWorld'.endedCount = 2 := by decide +kernel
  refine ⟨hended, hcount.trans ?_, ?_, ?_⟩
  · show min 1 forgetfulWorld'.endedCount = 1
    rw [hended]
    rfl
  · exact hopen 2 _ (Option.some_get (by decide +kernel)).symm (by decide +kernel)
  · intro r hr hunfinished
    obtain ⟨f, hf, hopen⟩ := hlive r hr hunfinished
    -- the other two jobs have ended
    have honly : ∀ job < 3, job ≠ 2 → (forgetfulWorld'.frames[job]?.map Frame.pc) =
        some .ended := by decide +kernel
    have hlt : r.id < 3 := (List.getElem?_eq_some_iff.mp hf).1
    by_contra hne
    have hpc := honly r.id hlt hne
    rw [hf] at hpc
    exact hopen (Option.some.inj hpc)

end World

end ContractPinger
