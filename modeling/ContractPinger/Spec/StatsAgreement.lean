import ContractPinger.ForStd.Tally
import ContractPinger.Model.Stats
import ContractPinger.Spec.JobLifecycle

/-!
# The aggregates agree with the jobs

`buildStats` classifies the jobs by state, by failure and by mode, and reads their durations
with a table of its own. In every reachable state each job is in exactly one class of each
kind, a failure reason is on the failed records only, and what is summarized is what `view`
shows.

## Key results

- `lookup_countBy` / `sum_countBy`: what `countBy` counts
- `values_eq_viewed`: the two tables of durations agree
- `stats_agree`: this, in every reachable state of a service
-/

namespace ContractPinger

open Machine

/-! ## `countBy` -/

section CountBy

variable {α : Type} [BEq α]

/-- One value more. -/
private theorem countBy_concat (values : List α) (value : α) : countBy (values ++ [value]) =
    (countBy values).upsert value (((countBy values).lookup value).getD 0 + 1) := by
  rw [countBy, List.foldl_append]
  rfl

variable [LawfulBEq α]

/-- A value is counted under one key. -/
theorem nodup_countBy (values : List α) : ((countBy values).map Prod.fst).Nodup := by
  induction values using List.reverseRecOn with
  | nil => exact List.nodup_nil
  | append_singleton values value ih =>
    rw [countBy_concat]
    exact List.nodup_keys_upsert ih _ _

/-- Each value is counted as often as it occurs. -/
theorem lookup_countBy (values : List α) (value : α) :
    ((countBy values).lookup value).getD 0 = values.count value := by
  induction values using List.reverseRecOn with
  | nil => rfl
  | append_singleton values last ih =>
    rw [countBy_concat, List.lookup_upsert, List.count_append, List.count_singleton]
    by_cases h : value = last
    · subst h
      simp [ih]
    · simp [h, Ne.symm h, ih]

/-- The counts sum to the number of values. -/
theorem sum_countBy (values : List α) : ((countBy values).map Prod.snd).sum = values.length := by
  induction values using List.reverseRecOn with
  | nil => rfl
  | append_singleton values value ih =>
    rw [countBy_concat, List.sum_upsert_succ (nodup_countBy values), ih, List.length_append,
      List.length_singleton]

end CountBy

/-! ## The classes of a job -/

/-- Every state is active, awaiting the respond, responded or failed, and one of them only. -/
theorem JobState.classes (state : JobState) :
    (if state.active then 1 else 0) + (if state == .confirmed then 1 else 0) +
      (if state == .responded then 1 else 0) + (if state == .failed then 1 else 0) = 1 := by
  cases state <;> rfl

/-- The records fall into four classes. -/
theorem JobStore.length_eq_classes (store : JobStore) : store.jobs.length =
    store.activeCount + store.awaitingRespondCount +
      (store.jobs.countP fun j => j.state == .responded) +
      store.jobs.countP fun j => j.state == .failed := by
  unfold activeCount awaitingRespondCount
  induction store.jobs with
  | nil => rfl
  | cons j rest ih =>
    have hone := j.state.classes
    simp only [List.length_cons, List.countP_cons]
    omega

/-! ## The two tables of durations -/

/-- The span of a stage. -/
def LatencyStage.spanOf (t : JobTimings) : LatencyStage → Option Millis
  | .leaseWaitMs => span (some t.acceptedAt) t.leaseAcquiredAt
  | .signatureMs => span t.signSentAt t.signatureAt
  | .confirmationMs => span t.broadcastAt t.confirmedAt
  | .respondMs => span t.confirmedAt t.respondedAt
  | .totalMs => span (some t.acceptedAt) t.finishedAt

/-- The entries of a table whose optional values are there. -/
private theorem lookup_present {β : Type} {entries : List (String × Option β)}
    (hnd : (entries.map Prod.fst).Nodup) (key : String) :
    (entries.filterMap fun entry => entry.2.map fun b => (entry.1, b)).lookup key =
      (entries.lookup key).join := by
  induction entries with
  | nil => rfl
  | cons entry rest ih =>
    obtain ⟨name, value⟩ := entry
    rw [List.map_cons, List.nodup_cons] at hnd
    rw [List.lookup_cons]
    cases hkey : key == name with
    | true =>
      cases value with
      | some b => simp [List.lookup_cons, hkey]
      | none =>
        -- the key is gone, and no later entry has it
        have hgone : rest.lookup key = none := by
          rw [List.lookup_eq_none_iff]
          intro entry hentry
          have hne : key ≠ entry.1 := fun h =>
            hnd.1 (List.mem_map.mpr ⟨entry, hentry, by rw [← h, eq_of_beq hkey]⟩)
          simpa using hne
        simp [ih hnd.2, hgone]
    | false =>
      cases value with
      | some b => simp [List.lookup_cons, hkey, ih hnd.2]
      | none => simp [ih hnd.2]

/-- `durationsFor` shows the spans of the stages. -/
theorem lookup_durationsFor (t : JobTimings) (stage : LatencyStage) :
    (durationsFor t).lookup stage.name = stage.spanOf t := by
  rw [durationsFor, lookup_present (by simp)]
  cases stage <;> simp [LatencyStage.name, LatencyStage.spanOf, List.lookup_cons]

/-- `latenciesFor` summarizes the spans of the stages; of the total, the successful ones. -/
theorem LatencyStage.values_eq (jobs : List JobRecord) (stage : LatencyStage) :
    stage.values jobs =
      (jobs.filter fun j => decide (stage = .totalMs → j.state = .responded)).filterMap fun j =>
        stage.spanOf j.timings := by
  cases stage with
  | totalMs => simp [values, spanOf, collect, beq_eq_decide]
  | _ => simp [values, spanOf, collect]

namespace World

/-- The durations of a stage that `view` shows of the jobs of a mode: of the total, of those
    that have responded. -/
def viewedDurations (w : World) (mode : TxMode) (stage : LatencyStage) : List Millis :=
  ((w.jobs.jobs.filter fun j => j.mode == mode).filter fun j =>
      decide (stage = .totalMs → j.state = .responded)).filterMap fun j =>
    (w.jobs.view j.id).bind fun view => view.durations.lookup stage.name

/-- What is summarized for a mode is what `view` shows. -/
theorem values_eq_viewed {w : World} (h : w.JobsInv) (mode : TxMode) (stage : LatencyStage) :
    stage.values (w.jobs.jobs.filter fun j => j.mode == mode) = w.viewedDurations mode stage := by
  rw [LatencyStage.values_eq, viewedDurations]
  refine List.filterMap_congr fun j hj => ?_
  have hmem : j ∈ w.jobs.jobs := (List.mem_filter.mp (List.mem_filter.mp hj).1).1
  -- ids are not repeated, so a job is found under its own
  rw [JobStore.view, JobStore.get?_of_mem h.ids_nodup hmem]
  exact (lookup_durationsFor j.timings stage).symm

/-! ## The agreement -/

/-- What a report of the aggregates says of the store and of its jobs. -/
structure StatsAgree (w : World) (stats : Stats) : Prop where
  /-- The figures of the report are those of the store. -/
  records : stats.total = w.jobs.jobs.length
  counters : stats.active = w.jobs.activeCount ∧
    stats.awaitingRespond = w.jobs.awaitingRespondCount ∧ stats.live = w.jobs.liveCount
  /-- A state is counted as often as a record has it, and so is a reason. -/
  stateCounts : (stats.states.map Prod.fst).Nodup ∧ ∀ state,
    (stats.states.lookup state).getD 0 = w.jobs.jobs.countP fun j => j.state == state
  failureCounts : (stats.failures.map Prod.fst).Nodup ∧ ∀ reason,
    (stats.failures.lookup reason).getD 0 =
      w.jobs.jobs.countP fun j => j.failureReason == some reason
  modeCounts : ∀ entry ∈ stats.byMode,
    entry.2.total = (w.jobs.jobs.countP fun j => j.mode == entry.1) ∧
      entry.2.succeeded =
        (w.jobs.jobs.countP fun j => j.state == .responded && j.mode == entry.1) ∧
      entry.2.failed = w.jobs.jobs.countP fun j => j.state == .failed && j.mode == entry.1
  /-- And they add up. -/
  total : stats.total = stats.active + stats.awaitingRespond +
    (stats.states.lookup .responded).getD 0 + (stats.states.lookup .failed).getD 0
  live : stats.live = stats.active + stats.awaitingRespond
  states : (stats.states.map Prod.snd).sum = stats.total
  modes : (stats.byMode.map fun entry => entry.2.total).sum = stats.total
  failures : (stats.failures.map Prod.snd).sum = w.jobs.jobs.countP (fun j => j.state == .failed) ∧
    (stats.failures.map Prod.snd).sum = (stats.states.lookup .failed).getD 0
  failed : (stats.byMode.map fun entry => entry.2.failed).sum =
    (stats.states.lookup .failed).getD 0
  /-- Every mode that a job has is reported once. -/
  reported : (stats.byMode.map Prod.fst).Nodup ∧
    ∀ mode, mode ∈ stats.byMode.map Prod.fst ↔ ∃ j ∈ w.jobs.jobs, j.mode = mode
  latencies : ∀ entry ∈ stats.byMode, ∀ stage, entry.2.latencies stage =
    summarize (stage.values (w.jobs.jobs.filter fun j => j.mode == entry.1))
  /-- And what is summarized is what `view` shows. -/
  summarized : ∀ mode (stage : LatencyStage),
    stage.values (w.jobs.jobs.filter fun j => j.mode == mode) = w.viewedDurations mode stage

/-- The failure reasons are those of the failed jobs. -/
theorem length_failures {w : World} (h : w.JobsInv) :
    (w.jobs.jobs.filterMap JobRecord.failureReason).length =
      w.jobs.jobs.countP fun j => j.state == .failed := by
  have hreason : ∀ j ∈ w.jobs.jobs, j.failureReason.isSome = (j.state == .failed) := by
    intro j hj
    obtain ⟨_, _, htracks⟩ := h.tracks j hj
    rw [Bool.eq_iff_iff, htracks.failure, beq_iff_eq]
  rw [List.length_filterMap_eq_countP]
  exact List.countP_congr fun j hj => by rw [hreason j hj]

/-- The figures of a mode are those of its records. -/
theorem modeStats_counts (jobs : List JobRecord) (mode : TxMode) :
    (modeStats jobs mode).total = (jobs.countP fun j => j.mode == mode) ∧
      (modeStats jobs mode).succeeded =
        (jobs.countP fun j => j.state == .responded && j.mode == mode) ∧
      (modeStats jobs mode).failed = jobs.countP fun j => j.state == .failed && j.mode == mode := by
  simp only [modeStats, List.filter_filter, List.countP_eq_length_filter, and_self]

/-- In every reachable state the aggregates agree with the store and with its views. -/
theorem stats_agree {s : Setup} {start : Millis} {w : World}
    (h : Reachable (step s) (World.new s start) w) : StatsAgree w (buildStats s w) := by
  have hinv := jobsInv_reachable h
  have hcount : ∀ state, ((buildStats s w).states.lookup state).getD 0 =
      w.jobs.jobs.countP fun j => j.state == state := by
    intro state
    show ((countBy (w.jobs.jobs.map JobRecord.state)).lookup state).getD 0 = _
    rw [lookup_countBy, List.count, List.countP_map]
    rfl
  -- every job is of one of the modes reported
  have hmode : ∀ j ∈ w.jobs.jobs, j.mode ∈ (w.jobs.jobs.map JobRecord.mode).eraseDups :=
    fun j hj => List.mem_eraseDups.mpr (List.mem_map_of_mem hj)
  have hgroups := fun q =>
    List.sum_countP_groups (List.nodup_eraseDups _) JobRecord.mode q hmode
  have hmodes : (buildStats s w).byMode.map Prod.fst =
      (w.jobs.jobs.map JobRecord.mode).eraseDups := by
    simp [buildStats, Function.comp_def]
  have hfailures : ((buildStats s w).failures.map Prod.snd).sum =
      w.jobs.jobs.countP fun j => j.state == .failed := by
    show ((countBy (w.jobs.jobs.filterMap JobRecord.failureReason)).map Prod.snd).sum = _
    rw [sum_countBy, length_failures hinv]
  refine ⟨rfl, ⟨rfl, rfl, rfl⟩, ⟨nodup_countBy _, hcount⟩, ⟨nodup_countBy _, ?_⟩, ?_, ?_, rfl, ?_,
    ?_, ⟨hfailures, ?_⟩, ?_, ⟨?_, ?_⟩, ?_, values_eq_viewed hinv⟩
  · intro reason
    show ((countBy (w.jobs.jobs.filterMap JobRecord.failureReason)).lookup reason).getD 0 = _
    rw [lookup_countBy, List.count, List.countP_filterMap]
    refine List.countP_congr fun j _ => ?_
    cases j.failureReason <;> simp
  · intro entry hentry
    obtain ⟨mode, _, rfl⟩ := List.mem_map.mp hentry
    exact modeStats_counts _ mode
  · rw [hcount, hcount]
    exact w.jobs.length_eq_classes
  · show ((countBy (w.jobs.jobs.map JobRecord.state)).map Prod.snd).sum = w.jobs.jobs.length
    rw [sum_countBy, List.length_map]
  · have hall := hgroups fun _ => true
    simp only [List.countP_true] at hall
    simp only [buildStats, List.map_map]
    exact hall
  · rw [hcount]
    exact hfailures
  · have hfailed := hgroups fun j => j.state == .failed
    simp only [List.countP_eq_length_filter] at hfailed
    rw [hcount, List.countP_eq_length_filter, ← hfailed]
    simp only [buildStats, List.map_map]
    rfl
  · rw [hmodes]
    exact List.nodup_eraseDups _
  · intro mode
    rw [hmodes, List.mem_eraseDups, List.mem_map]
  · intro entry hentry stage
    obtain ⟨mode, _, rfl⟩ := List.mem_map.mp hentry
    rfl

/-- One job has responded, one fails and one has just been accepted. -/
def mixedRun : List Action :=
  respondedRun ++ [.start .erc20ZeroTransfer, .resume 1 .resume, .resume 1 .resume,
    .resume 1 .resume, .resume 1 .resume, .resume 1 (.throw { message := "timeout" }),
    .resume 1 .resume, .start .ethSelfTransfer]

/-- The state that run ends in. -/
def mixedWorld : World :=
  (exec (step sampleSetup) (World.new sampleSetup 0) mixedRun).getD (World.new sampleSetup 0)

/-- One job responded, one failed and one not begun, and the report says so. -/
theorem mixedRun_stats :
    StatsAgree mixedWorld (buildStats sampleSetup mixedWorld) ∧
      (buildStats sampleSetup mixedWorld).total = 3 ∧
      (buildStats sampleSetup mixedWorld).states =
        [(.responded, 1), (.failed, 1), (.pending, 1)] ∧
      (buildStats sampleSetup mixedWorld).failures = [(.internalError, 1)] ∧
      (buildStats sampleSetup mixedWorld).live = 1 := by
  have hexec : exec (step sampleSetup) (World.new sampleSetup 0) mixedRun = some mixedWorld :=
    exec_getD (by decide +kernel) _
  exact ⟨stats_agree (reachable_of_exec hexec), by decide +kernel, by decide +kernel,
    by decide +kernel, by decide +kernel⟩

end World

end ContractPinger
