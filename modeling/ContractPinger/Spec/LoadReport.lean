import ContractPinger.ForStd.Potential
import ContractPinger.Spec.LoadDriver
import ContractPinger.Spec.Percentiles

/-!
# How a load test ends

Polling goes on until every job has an entry, and nothing else ends it: a job that neither
finishes nor goes missing is polled for ever. Once the jobs have ended on the server, though,
each poll enters its job or counts a miss of it, so the polls are numbered; and then the report
counts every entry once.

## Key results

- `remaining_polled`: a poll of an ended job is one of those that were left
- `load_ends`: once its jobs have ended, the driver comes to its end
- `report_accounts`: the figures of the report add up
-/

namespace ContractPinger

open Machine

/-! ## The polls that are left -/

namespace Driver

/-- The polls of a job that are left, if none is answered with a job under way. -/
def pollsLeft (d : Driver) (id : JobId) : Nat :=
  if d.hasFinished id then 0 else maxMisses - d.missing id

/-- And those of all jobs. -/
def remaining (d : Driver) : Nat := (d.jobIds.map d.pollsLeft).sum

/-- The answer ends the wait for a job, or is a miss. -/
def final : Option JobView → Bool
  | none => true
  | some view => view.record.state.terminal

/-- The steps to the end: for each poll the request, its answer, and maybe a sleep. An answer
    that a job goes on, given before it ended, still has its misses set back. -/
def stepsLeft (d : Driver) : Nat :=
  match d.pc with
  | .submitting _ => 0
  | .backingOff _ => 0
  | .sleeping _ => max 3 (3 * d.remaining + 2)
  | .polling _ _ none => 3 * d.remaining + 1
  | .polling id _ (some answer) =>
    if final answer then 3 * d.remaining else 3 * (d.polled id answer).remaining + 3
  | .readingStats false => 2
  | .readingStats true => 1
  | .exited _ => 0

/-- An entry finishes its job and no other. -/
theorem hasFinished_finish (d : Driver) (id other : JobId) (outcome : LoadOutcome) :
    (d.finish id outcome).hasFinished other = (d.hasFinished other || id == other) := by
  simp [finish, hasFinished]

/-- A poll of a job leaves the others as they are. -/
theorem pollsLeft_polled_ne (d : Driver) {id other : JobId} (hne : other ≠ id)
    (answer : Option JobView) : (d.polled id answer).pollsLeft other = d.pollsLeft other := by
  -- neither an entry nor a miss of one job changes the polls left of another
  have hfinish : ∀ (d : Driver) outcome, (d.finish id outcome).pollsLeft other =
      d.pollsLeft other := by
    intro d outcome
    unfold pollsLeft
    rw [hasFinished_finish, beq_false_of_ne hne.symm, Bool.or_false]
    rfl
  have hmissing : ∀ misses, pollsLeft { d with missing := Function.update d.missing id misses }
      other = d.pollsLeft other := by
    intro misses
    simp only [pollsLeft, Function.update_of_ne hne]
    rfl
  cases answer with
  | none =>
    unfold polled
    dsimp only
    split
    · rw [hfinish, hmissing]
    · rw [hmissing]
  | some view =>
    unfold polled
    dsimp only
    split
    · rw [hfinish, hmissing]
    · rw [hmissing]

/-- A poll of an ended job is one of those that were left. -/
theorem pollsLeft_polled (d : Driver) {id : JobId} (hfresh : d.hasFinished id = false)
    (hmissed : d.missing id < maxMisses) {answer : Option JobView} (hfinal : final answer = true) :
    (d.polled id answer).pollsLeft id < d.pollsLeft id := by
  have hbefore : d.pollsLeft id = maxMisses - d.missing id := by
    rw [pollsLeft, hfresh]
    rfl
  have hentered : ∀ (d : Driver) outcome, (d.finish id outcome).pollsLeft id = 0 := by
    intro d outcome
    rw [pollsLeft, hasFinished_finish, beq_self_eq_true, Bool.or_true]
    rfl
  rw [hbefore]
  cases answer with
  | none =>
    unfold polled
    dsimp only
    split
    · rw [hentered]
      omega
    · -- a miss more, of those that are allowed
      let missed : Driver :=
        { d with missing := Function.update d.missing id (d.missing id + 1) }
      have hsame : missed.hasFinished id = false := hfresh
      have hcount : missed.missing id = d.missing id + 1 := Function.update_self ..
      have hafter : missed.pollsLeft id = maxMisses - (d.missing id + 1) := by
        rw [pollsLeft, hsame, hcount]
        rfl
      show missed.pollsLeft id < _
      rw [hafter]
      omega
  | some view =>
    unfold polled
    dsimp only
    have hterminal : view.record.state.terminal = true := hfinal
    rw [if_pos hterminal, hentered]
    omega

/-- A final answer uses up a poll. -/
theorem remaining_polled (d : Driver) {id : JobId} (hid : id ∈ d.jobIds)
    (hfresh : d.hasFinished id = false) (hmissed : d.missing id < maxMisses)
    {answer : Option JobView} (hfinal : final answer = true) :
    (d.polled id answer).remaining < d.remaining := by
  unfold remaining
  rw [LoadTest.polled_jobIds]
  refine List.sum_lt_sum _ _ ?_ ⟨id, hid, pollsLeft_polled d hfresh hmissed hfinal⟩
  intro other _
  by_cases heq : other = id
  · subst heq
    exact Nat.le_of_lt (pollsLeft_polled d hfresh hmissed hfinal)
  · exact Nat.le_of_eq (pollsLeft_polled_ne d heq answer)

/-- A job takes no more polls than misses are allowed. -/
theorem remaining_le (d : Driver) : d.remaining ≤ maxMisses * d.jobIds.length := by
  have hle : ∀ polls ∈ d.jobIds.map d.pollsLeft, polls ≤ maxMisses := by
    intro polls hpolls
    obtain ⟨id, _, rfl⟩ := List.mem_map.mp hpolls
    unfold pollsLeft
    split
    · exact Nat.zero_le _
    · exact Nat.sub_le _ _
  have hsum := List.sum_le_card_nsmul _ maxMisses hle
  rw [List.length_map, smul_eq_mul, Nat.mul_comm] at hsum
  exact hsum

/-- A job without an entry has a poll left. -/
theorem remaining_pos {d : Driver} {id : JobId} (hid : id ∈ d.jobIds)
    (hfresh : d.hasFinished id = false) (hmissed : d.missing id < maxMisses) :
    0 < d.remaining := by
  have hone : d.pollsLeft id ≤ d.remaining :=
    List.single_le_sum (by simp) _ (List.mem_map_of_mem hid)
  have hleft : d.pollsLeft id = maxMisses - d.missing id := by
    rw [pollsLeft, hfresh]
    rfl
  omega

/-- With an entry for every job there are as many entries as jobs. -/
theorem length_le_of_all_finished {d : Driver} (hdistinct : d.jobIds.Nodup)
    (hall : ∀ id ∈ d.jobIds, d.hasFinished id = true) : d.jobIds.length ≤ d.finished.length := by
  have hkeys : d.jobIds ⊆ d.finished.map Prod.fst :=
    fun id hid => LoadTest.hasFinished_iff.mp (hall id hid)
  have hlength := (hdistinct.subperm hkeys).length_le
  rwa [List.length_map] at hlength

/-- After a round the driver reports, or it sleeps with a job to poll. -/
theorem stepsLeft_nextRound (o : LoadOptions) {d : Driver} (hdistinct : d.jobIds.Nodup)
    (hmissed : ∀ id, d.hasFinished id = false → d.missing id < maxMisses) :
    (d.nextRound o).stepsLeft ≤ 3 * d.remaining + 2 := by
  unfold nextRound
  split
  · rename_i hless
    -- a round begins only while a job is open, and an open job has polls left
    have hopen : ∃ id ∈ d.jobIds, d.hasFinished id = false := by
      by_contra hnone
      simp only [not_exists, not_and, Bool.not_eq_false] at hnone
      exact absurd (length_le_of_all_finished hdistinct hnone) (Nat.not_le_of_lt hless)
    obtain ⟨id, hid, hfresh⟩ := hopen
    have hpos := remaining_pos hid hfresh (hmissed id hfresh)
    show max 3 (3 * d.remaining + 2) ≤ _
    omega
  · exact Nat.le_add_left 2 _

/-- With a round begun there is a request, its answer and maybe a sleep for every poll left. -/
theorem stepsLeft_pollFrom (o : LoadOptions) {d : Driver} (hdistinct : d.jobIds.Nodup)
    (hmissed : ∀ id, d.hasFinished id = false → d.missing id < maxMisses) (rest : List JobId) :
    (d.pollFrom o rest).stepsLeft ≤ 3 * d.remaining + 2 := by
  unfold pollFrom
  split
  · exact stepsLeft_nextRound o hdistinct hmissed
  · exact Nat.le_succ _

/-- A round that starts from the first job polls one, or there is none left to poll. -/
theorem stepsLeft_round (o : LoadOptions) {d : Driver} (hdistinct : d.jobIds.Nodup) :
    (d.pollFrom o d.jobIds).stepsLeft < max 3 (3 * d.remaining + 2) := by
  unfold pollFrom
  split
  · rename_i hnone
    have hall := length_le_of_all_finished hdistinct (List.dropWhile_eq_nil_iff.mp hnone)
    rw [nextRound, if_neg (Nat.not_lt_of_le hall)]
    show 2 < _
    omega
  · show 3 * d.remaining + 1 < _
    omega

end Driver

/-- The driver does something, or its request is answered or fails. -/
def LoadAction.own : LoadAction → Bool
  | .server _ => false
  | .restart => false
  | .answer => true
  | .disconnect => true
  | .resume => true

namespace LoadTest

variable {c : Config} {o : LoadOptions} {lt lt' : LoadTest}

/-! ## Jobs that have ended -/

/-- The jobs of the driver have ended, or their server has. -/
def Settled (lt : LoadTest) : Prop :=
  ∀ id ∈ lt.driver.jobIds, lt.Known id fun w =>
    ∃ f : Frame, w.frames[id.job]? = some f ∧ f.pc.stage = .ended

/-- Nothing is left to submit. -/
def Submitted : DriverPc → Prop
  | .submitting _ => False
  | .backingOff _ => False
  | _ => True

/-- What is asked of a job that has ended is final. -/
theorem getJob_final {now : Millis} (happ : Reachable (App.step c) (App.new now) lt.app)
    (hsettled : lt.Settled) {id : JobId} (hid : id ∈ lt.driver.jobIds) :
    Driver.final (lt.getJob c o id) = true := by
  unfold getJob
  split
  · rw [App.getJob_eq]
    split
    · rename_i hstart
      obtain ⟨w, hw, f, hf, hended⟩ := (hsettled id hid).2 hstart
      obtain ⟨start, v, hv, heq⟩ := App.service_byItself happ hw
      rw [hw, Option.bind_some]
      cases hget : w.jobs.get? id.job with
      | none =>
        rw [JobStore.view, hget]
        rfl
      | some r =>
        rw [JobStore.view, hget]
        rw [heq] at hget hf
        obtain ⟨hmem, hrid⟩ := JobStore.mem_of_get? hget
        have htracks := (World.jobsInv_reachable hv.reachable).tracks_frame hmem (hrid ▸ hf)
        rw [hended] at htracks
        -- the record of a job that has ended is final
        exact htracks.terminal
    · rfl
  · rfl

/-- A driver that only polls, and jobs that have ended. -/
structure Ending (c : Config) (o : LoadOptions) (lt : LoadTest) : Prop where
  inv : lt.LoadInv c o
  settled : lt.Settled
  submitted : Submitted lt.driver.pc

/-- Jobs that have ended stay so. -/
theorem Settled.step {a : LoadAction} (h : lt.Settled)
    (hstep : LoadTest.step c o lt a = some lt')
    (hids : lt'.driver.jobIds = lt.driver.jobIds) : lt'.Settled := by
  intro id hid
  refine Known.step (h id (hids ▸ hid)) (fun _ _ h => h) ?_ hstep
  rintro w a w' ⟨f, hf, hended⟩ hstep
  exact (World.ended_step hstep hf hended).1

/-- The rounds come after the submissions. -/
theorem submitted_nextRound (o : LoadOptions) (d : Driver) : Submitted (d.nextRound o).pc := by
  unfold Driver.nextRound
  split <;> trivial

/-- And every poll of a round. -/
theorem submitted_pollFrom (o : LoadOptions) (d : Driver) (rest : List JobId) :
    Submitted (d.pollFrom o rest).pc := by
  unfold Driver.pollFrom
  split
  · exact submitted_nextRound o d
  · trivial

/-- Going through a round submits nothing. -/
theorem pollFrom_jobIds (o : LoadOptions) (d : Driver) (rest : List JobId) :
    (d.pollFrom o rest).jobIds = d.jobIds := by
  unfold Driver.pollFrom
  split
  · unfold Driver.nextRound
    split <;> rfl
  · rfl

/-- Each step of a driver that only polls is one of those left. -/
theorem Ending.own {a : LoadAction} (h : lt.Ending c o) (hown : LoadAction.own a = true)
    (hstep : LoadTest.step c o lt a = some lt') :
    lt'.driver.jobIds = lt.driver.jobIds ∧ Submitted lt'.driver.pc ∧
      lt'.driver.stepsLeft < lt.driver.stepsLeft := by
  have hsubmitted := h.submitted
  have hawaits := h.inv.awaits
  cases a with
  | server _ => cases hown
  | restart => cases hown
  | answer =>
    obtain ⟨now, happ⟩ := h.inv.accounts.app
    simp only [step, LoadTest.answer] at hstep
    split at hstep
    · rename_i hpc
      rw [hpc] at hsubmitted
      exact hsubmitted.elim
    · rename_i id rest hpc
      cases hstep
      rw [hpc] at hawaits
      have hfinal := getJob_final (c := c) (o := o) happ h.settled hawaits.2.1
      refine ⟨rfl, trivial, ?_⟩
      simp only [Driver.stepsLeft, hpc, hfinal, if_true]
      exact Nat.lt_succ_self _
    · rename_i hpc
      cases hstep
      refine ⟨rfl, trivial, ?_⟩
      simp only [Driver.stepsLeft, hpc]
      exact Nat.lt_succ_self _
    · cases hstep
  | disconnect =>
    simp only [step] at hstep
    split at hstep
    · rename_i hrequesting
      cases hstep
      refine ⟨rfl, trivial, ?_⟩
      show 0 < lt.driver.stepsLeft
      cases hpc : lt.driver.pc with
      | submitting answer =>
        rw [hpc] at hsubmitted
        exact hsubmitted.elim
      | polling id rest answer =>
        rw [hpc] at hawaits
        obtain ⟨-, hid, hfresh, -, -⟩ := hawaits
        have hpos := Driver.remaining_pos hid hfresh (h.inv.accounts.missed id hfresh)
        cases answer with
        | none =>
          simp only [Driver.stepsLeft, hpc]
          exact Nat.succ_pos _
        | some answer =>
          simp only [Driver.stepsLeft, hpc]
          split <;> omega
      | readingStats answered => cases answered <;> simp [Driver.stepsLeft, hpc]
      | _ =>
        rw [hpc] at hrequesting
        cases hrequesting
    · cases hstep
  | resume =>
    obtain ⟨driver, hresume, rfl⟩ := Option.map_eq_some_iff.mp hstep
    unfold Driver.resume at hresume
    split at hresume
    · cases hresume
    · rename_i hpc
      rw [hpc] at hsubmitted
      exact hsubmitted.elim
    · rename_i hpc
      rw [hpc] at hsubmitted
      exact hsubmitted.elim
    · rename_i hpc
      rw [hpc] at hsubmitted
      exact hsubmitted.elim
    · rename_i hpc
      rw [hpc] at hsubmitted
      exact hsubmitted.elim
    · rename_i hpc
      cases hresume
      refine ⟨pollFrom_jobIds _ _ _, submitted_pollFrom _ _ _, ?_⟩
      have hround := Driver.stepsLeft_round o h.inv.accounts.distinct
      simpa only [Driver.stepsLeft, hpc] using hround
    · cases hresume
    · rename_i id rest answer hpc
      cases hresume
      rw [hpc] at hawaits
      obtain ⟨-, hid, hfresh, -, hanswer⟩ := hawaits
      refine ⟨(pollFrom_jobIds _ _ _).trans (polled_jobIds _ _ _), submitted_pollFrom _ _ _, ?_⟩
      have hpolled := h.inv.accounts.polled hid hfresh (hanswer answer rfl)
      have hsteps := Driver.stepsLeft_pollFrom o hpolled.distinct hpolled.missed rest
      refine Nat.lt_of_le_of_lt hsteps ?_
      simp only [Driver.stepsLeft, hpc]
      split
      · -- the poll was one of those left
        rename_i hfinal
        have hless := lt.driver.remaining_polled hid hfresh
          (h.inv.accounts.missed id hfresh) hfinal
        omega
      · -- the answer was given before the job ended
        exact Nat.lt_succ_self _
    · cases hresume
    · rename_i hpc
      cases hresume
      refine ⟨rfl, trivial, ?_⟩
      simp only [Driver.stepsLeft, hpc]
      exact Nat.lt_succ_self _
    · cases hresume

/-- The other steps leave the driver as it is. -/
theorem step_others {a : LoadAction} (hothers : LoadAction.own a = false)
    (hstep : LoadTest.step c o lt a = some lt') : lt'.driver = lt.driver := by
  cases a with
  | server action =>
    obtain ⟨app, _, rfl⟩ := Option.map_eq_some_iff.mp hstep
    rfl
  | restart =>
    cases hstep
    rfl
  | answer => cases hothers
  | disconnect => cases hothers
  | resume => cases hothers

/-- A driver that only polls goes on to do only that. -/
theorem Ending.step {a : LoadAction} (h : lt.Ending c o)
    (hstep : LoadTest.step c o lt a = some lt') : lt'.Ending c o := by
  refine ⟨loadInv_step h.inv hstep, ?_, ?_⟩
  · cases hown : LoadAction.own a with
    | true => exact h.settled.step hstep (h.own hown hstep).1
    | false => exact h.settled.step hstep (congrArg Driver.jobIds (step_others hown hstep))
  · cases hown : LoadAction.own a with
    | true => exact (h.own hown hstep).2.1
    | false => exact step_others hown hstep ▸ h.submitted

/-- A driver that has not exited can go on. -/
theorem stuck_iff : Stuck (step c o) (fun a => LoadAction.own a = true) lt ↔
    ∃ code, lt.driver.pc = .exited code := by
  constructor
  · intro hstuck
    have hanswer : lt.answer c o = none := hstuck .answer rfl
    have hresume := hstuck .resume rfl
    simp only [step, Option.map_eq_none_iff] at hresume
    -- wherever else it is suspended, the server can answer or the driver can go on
    cases hpc : lt.driver.pc with
    | submitting answer =>
      cases answer with
      | none => simp [LoadTest.answer, hpc] at hanswer
      | some answer => cases answer <;> simp [Driver.resume, hpc] at hresume
    | backingOff ms => simp [Driver.resume, hpc] at hresume
    | sleeping ms => simp [Driver.resume, hpc] at hresume
    | polling id rest answer =>
      cases answer with
      | none => simp [LoadTest.answer, hpc] at hanswer
      | some answer => simp [Driver.resume, hpc] at hresume
    | readingStats answered =>
      cases answered with
      | false => simp [LoadTest.answer, hpc] at hanswer
      | true => simp [Driver.resume, hpc] at hresume
    | exited code => exact ⟨code, rfl⟩
  · intro hexited
    obtain ⟨code, hpc⟩ := hexited
    intro a hown
    cases a with
    | server action => cases hown
    | restart => cases hown
    | answer => simp [step, LoadTest.answer, hpc]
    | disconnect => simp [step, requesting, hpc]
    | resume => simp [step, Driver.resume, hpc]

/-- There are only so many steps to the end. -/
theorem stepsLeft_le (hbounded : lt.driver.jobIds.length ≤ o.jobs) :
    lt.driver.stepsLeft ≤ 3 * (maxMisses * o.jobs) + 3 := by
  have hle : ∀ d : Driver, d.jobIds.length ≤ o.jobs → d.remaining ≤ maxMisses * o.jobs :=
    fun d hjobs => d.remaining_le.trans (Nat.mul_le_mul_left maxMisses hjobs)
  have hremaining := hle lt.driver hbounded
  unfold Driver.stepsLeft
  cases lt.driver.pc with
  | submitting | backingOff | exited => exact Nat.zero_le _
  | sleeping ms =>
    dsimp only
    omega
  | polling id rest answer =>
    cases answer with
    | none =>
      dsimp only
      omega
    | some answer =>
      -- polling submits no more jobs
      have hpolled := hle (lt.driver.polled id answer) (by rwa [polled_jobIds])
      dsimp only
      split <;> omega
  | readingStats answered =>
    cases answered <;> dsimp only <;> omega

/-- Once its jobs have ended on the server, or with it, a driver that has submitted them takes
    only so many steps more, whatever the server does in between; and it can take one until it
    exits. -/
theorem load_ends {now : Millis} (h : Reachable (step c o) (new o now) lt)
    (hsettled : lt.Settled) (hsubmitted : Submitted lt.driver.pc) {as : List LoadAction}
    (hexec : exec (step c o) lt as = some lt') :
    as.countP LoadAction.own ≤ lt.driver.stepsLeft ∧
      lt.driver.stepsLeft ≤ 3 * (maxMisses * o.jobs) + 3 ∧
      (Stuck (step c o) (fun a => LoadAction.own a = true) lt' ↔
        ∃ code, lt'.driver.pc = .exited code) := by
  have hending : lt.Ending c o := ⟨loadInv_reachable h, hsettled, hsubmitted⟩
  refine ⟨?_, ?_, stuck_iff⟩
  · have hkeep : ∀ lt a lt', Ending c o lt → step c o lt a = some lt' → Ending c o lt' :=
      fun _ _ _ h hstep => h.step hstep
    -- the driver's steps are paid for, the server's are free
    have hpay : ∀ lt a lt', Ending c o lt → step c o lt a = some lt' →
        lt'.driver.stepsLeft + (if LoadAction.own a then 1 else 0) ≤ lt.driver.stepsLeft + 0 := by
      intro lt a lt' h hstep
      cases hown : LoadAction.own a with
      | true =>
        have hless := (h.own hown hstep).2.2
        simp only [if_true]
        omega
      | false =>
        rw [step_others hown hstep]
        exact Nat.le_refl _
    have hrun := exec_potential hkeep hpay hending hexec
    rw [sum_map_ite_eq_countP] at hrun
    have hnone : (as.map fun _ => 0).sum = 0 := by simp
    omega
  · exact stepsLeft_le hending.inv.accounts.bounded

/-- The jobs of the load test have ended or are gone with their server, and in flight is the
    answer that the last of them goes on. -/
def loadRestarted : LoadTest :=
  (exec (step loadConfig loadOptions) (new loadOptions 0) (polledRun ++ [.restart])).getD
    (new loadOptions 0)

/-- The driver takes all of the steps that are left to it, and no step more. -/
theorem loadRestarted_ends : missedRun.countP LoadAction.own ≤ loadRestarted.driver.stepsLeft ∧
    missedRun.countP LoadAction.own = 18 ∧ loadRestarted.driver.stepsLeft = 18 ∧
    ∃ lt, exec (step loadConfig loadOptions) loadRestarted missedRun = some lt ∧
      Stuck (step loadConfig loadOptions) (fun a => LoadAction.own a = true) lt := by
  have hrestarted : exec (step loadConfig loadOptions) (new loadOptions 0)
      (polledRun ++ [.restart]) = some loadRestarted := exec_getD (by decide +kernel) _
  obtain ⟨lt, hmissed, hexited⟩ :
      ∃ lt, exec (step loadConfig loadOptions) loadRestarted missedRun = some lt ∧
        lt.driver.pc = .exited 1 :=
    ⟨_, (Option.some_get (by decide +kernel)).symm, by decide +kernel⟩
  have hsettled : loadRestarted.Settled := by
    have hids : ∀ id ∈ loadRestarted.driver.jobIds, id.start = 0 := by decide +kernel
    have hstart : loadRestarted.start = 1 := by decide +kernel
    intro id hid
    -- the jobs are of the server before the restart
    refine ⟨by rw [hids id hid]; exact Nat.zero_le _, fun hsame => ?_⟩
    rw [hids id hid, hstart] at hsame
    cases hsame
  have hsubmitted : Submitted loadRestarted.driver.pc := by
    obtain ⟨id, rest, answer, hpc⟩ :
        ∃ id rest answer, loadRestarted.driver.pc = .polling id rest answer :=
      ⟨_, _, _, rfl⟩
    rw [hpc]
    trivial
  obtain ⟨hcount, -, hstuck⟩ :=
    load_ends (reachable_of_exec hrestarted) hsettled hsubmitted hmissed
  exact ⟨hcount, by decide, by decide +kernel, lt, hmissed, hstuck.mpr ⟨1, hexited⟩⟩

end LoadTest

/-! ## The report -/

/-- The least of some values is the first of them sorted. -/
theorem min?_eq_summarize (values : List Millis) : values.min? = (summarize values).min := by
  cases hvalues : values with
  | nil => simp [summarize, ascending]
  | cons first rest =>
    rw [← hvalues]
    have hlength : 0 < (ascending values).length := by simp [hvalues]
    show _ = if 0 < (ascending values).length then (ascending values)[0]? else none
    rw [if_pos hlength, List.getElem?_eq_getElem hlength, List.min?_eq_some_iff]
    have hfirst := List.getElem?_eq_getElem hlength
    refine ⟨mem_of_ascending hfirst, fun v hv => ?_⟩
    have hmem : v ∈ ascending values := List.mem_mergeSort.mpr hv
    obtain ⟨i, hi⟩ := List.mem_iff_getElem?.mp hmem
    exact (sortedLE_ascending values).getElem?_le (Nat.zero_le i) hfirst hi

/-- The greatest is the last. -/
theorem max?_eq_summarize (values : List Millis) : values.max? = (summarize values).max := by
  cases hvalues : values with
  | nil => simp [summarize, ascending]
  | cons first rest =>
    rw [← hvalues]
    have hlength : 0 < (ascending values).length := by simp [hvalues]
    have hlt : (ascending values).length - 1 < (ascending values).length := by omega
    show _ = if 0 < (ascending values).length then
      (ascending values)[(ascending values).length - 1]? else none
    rw [if_pos hlength, List.getElem?_eq_getElem hlt, List.max?_eq_some_iff]
    -- the last of the sorted values is the greatest of them
    have hlast := List.getElem?_eq_getElem hlt
    refine ⟨mem_of_ascending hlast, fun v hv => ?_⟩
    have hmem : v ∈ ascending values := List.mem_mergeSort.mpr hv
    obtain ⟨i, hi⟩ := List.mem_iff_getElem?.mp hmem
    have hin := (List.getElem?_eq_some_iff.mp hi).1
    exact (sortedLE_ascending values).getElem?_le (by omega) hi hlast

/-- What is counted occurs. -/
theorem mem_of_mem_countBy {α : Type} [BEq α] [LawfulBEq α] {values : List α} {value : α}
    (h : value ∈ (countBy values).map Prod.fst) : value ∈ values := by
  induction values using List.reverseRecOn with
  | nil => cases h
  | append_singleton values last ih =>
    rw [countBy, List.foldl_append] at h
    change value ∈ ((countBy values).upsert last _).map Prod.fst at h
    rw [List.keys_upsert] at h
    split at h
    · exact List.mem_append_left _ (ih h)
    · rcases List.mem_append.mp h with hold | hlast
      · exact List.mem_append_left _ (ih hold)
      · exact List.mem_append_right _ hlast

/-- The line of a latency table that the server's summary of the values would give. -/
def Summary.row (summary : Summary) : LatencyRow :=
  { min := summary.min, p50 := summary.p50, p95 := summary.p95, max := summary.max }

namespace LoadTest

variable {c : Config} {o : LoadOptions} {lt : LoadTest}

/-- The durations of a stage, of the jobs that have succeeded. -/
def measured (d : Driver) (stage : LatencyStage) : List Millis :=
  ((d.finished.map Prod.snd).filter LoadOutcome.responded).filterMap (LoadOutcome.duration stage)

/-- The driver's table is what the server would say of the same durations. -/
theorem report_latency (d : Driver) (stage : LatencyStage) :
    d.report.latency stage = (summarize (measured d stage)).row := by
  show LatencyRow.mk _ _ _ _ = LatencyRow.mk _ _ _ _
  rw [min?_eq_summarize, max?_eq_summarize, loadtest_percentile_eq, loadtest_percentile_eq]
  rfl

/-- A job that has succeeded is measured at every stage. -/
theorem Accounts.length_measured (h : lt.Accounts c o) (stage : LatencyStage) :
    (measured lt.driver stage).length = lt.driver.report.succeeded := by
  show _ = ((lt.driver.finished.map Prod.snd).filter LoadOutcome.responded).length
  rw [measured, List.length_filterMap_eq_countP, List.countP_eq_length]
  intro outcome houtcome
  obtain ⟨hin, hresponded⟩ := List.mem_filter.mp houtcome
  obtain ⟨entry, hentry, rfl⟩ := List.mem_map.mp hin
  have htold := (h.told entry hentry).2
  cases hcase : entry.2 with
  | lost =>
    -- a job lost has not responded
    rw [hcase] at hresponded
    cases hresponded
  | job view =>
    rw [hcase] at hresponded htold
    exact htold.2.1.complete (by simpa [LoadOutcome.responded, LoadOutcome.state] using hresponded)
      stage

/-- An entry is a success or a failure. -/
theorem Accounts.failed_eq (h : lt.Accounts c o) {entry : JobId × LoadOutcome}
    (hentry : entry ∈ lt.driver.finished) : entry.2.failed = !entry.2.responded := by
  have htold := (h.told entry hentry).2
  cases hcase : entry.2 with
  | lost => rfl
  | job view =>
    rw [hcase] at htold
    have hterminal := htold.1
    revert hterminal
    simp only [LoadOutcome.failed, LoadOutcome.responded, LoadOutcome.state, JobState.terminal]
    cases view.record.state <;> simp

/-- A failure has a reason. -/
theorem Accounts.reason_known (h : lt.Accounts c o) {entry : JobId × LoadOutcome}
    (hentry : entry ∈ lt.driver.finished) (hfailed : entry.2.failed = true) :
    entry.2.reason ≠ .unknown := by
  have htold := (h.told entry hentry).2
  cases hcase : entry.2 with
  | lost => simp [LoadOutcome.reason]
  | job view =>
    rw [hcase] at htold hfailed
    have hstate : view.record.state = .failed := by
      simpa [LoadOutcome.failed, LoadOutcome.state] using hfailed
    obtain ⟨reason, hreason⟩ := Option.isSome_iff_exists.mp (htold.2.1.failure.mpr hstate)
    simp [LoadOutcome.reason, hreason]

/-- The figures of a report, with the entries they are about. -/
structure ReportAccounts (d : Driver) (r : LoadReport) : Prop where
  total : r.total = d.finished.length ∧ r.succeeded + r.failed = r.total
  /-- Every failure is counted under one reason, which is never `unknown`. -/
  failures : (r.failures.map Prod.snd).sum = r.failed ∧ (r.failures.map Prod.fst).Nodup ∧
    ReportedReason.unknown ∉ r.failures.map Prod.fst
  /-- As often as it was the reason, and the most frequent reason first. -/
  reasons : (∀ reason count, (reason, count) ∈ r.failures → count =
      d.finished.countP fun entry => entry.2.failed && decide (entry.2.reason = reason)) ∧
    r.failures.Pairwise fun a b => b.2 ≤ a.2
  /-- Every success is measured at every stage, and the table says of these durations what the
      server would say of them. -/
  latency : ∀ stage, (measured d stage).length = r.succeeded ∧
    r.latency stage = (summarize (measured d stage)).row

/-- The report counts every entry once. -/
theorem report_accounts {now : Millis} (h : Reachable (step c o) (new o now) lt) :
    ReportAccounts lt.driver lt.driver.report := by
  have haccounts := (loadInv_reachable h).accounts
  let outcomes := lt.driver.finished.map Prod.snd
  let reasons := (outcomes.filter LoadOutcome.failed).map LoadOutcome.reason
  have hfailures : lt.driver.report.failures.Perm (countBy reasons) := List.mergeSort_perm _ _
  have hkeys := hfailures.map Prod.fst
  refine ⟨⟨?_, ?_⟩, ⟨?_, ?_, ?_⟩, ⟨?_, ?_⟩, ?_⟩
  · exact List.length_map _
  · show (outcomes.filter LoadOutcome.responded).length +
      (outcomes.filter LoadOutcome.failed).length = outcomes.length
    have hsplit : outcomes.filter LoadOutcome.failed =
        outcomes.filter fun outcome => !outcome.responded := by
      refine List.filter_congr fun outcome houtcome => ?_
      obtain ⟨entry, hentry, rfl⟩ := List.mem_map.mp houtcome
      exact haccounts.failed_eq hentry
    rw [hsplit]
    exact (List.length_eq_length_filter_add _).symm
  · rw [(hfailures.map Prod.snd).sum_eq, sum_countBy]
    exact List.length_map _
  · exact hkeys.nodup_iff.mpr (nodup_countBy reasons)
  · intro hunknown
    -- a reason that is counted occurs
    have hin := mem_of_mem_countBy (hkeys.mem_iff.mp hunknown)
    obtain ⟨outcome, houtcome, hreason⟩ := List.mem_map.mp hin
    obtain ⟨hin, hfailed⟩ := List.mem_filter.mp houtcome
    obtain ⟨entry, hentry, rfl⟩ := List.mem_map.mp hin
    exact haccounts.reason_known hentry hfailed hreason
  · intro reason count hmem
    have hlookup := (List.lookup_eq_some_iff_mem (nodup_countBy reasons)).mpr
      (hfailures.mem_iff.mp hmem)
    have hcount := lookup_countBy reasons reason
    rw [hlookup, Option.getD_some] at hcount
    rw [hcount, List.count_eq_countP, List.countP_map, List.countP_filter, List.countP_map]
    refine List.countP_congr fun entry _ => ?_
    simp [and_comm]
  · have hsorted : lt.driver.report.failures.Pairwise fun a b => decide (b.2 ≤ a.2) = true := by
      apply List.pairwise_mergeSort
      · intro a b c hab hbc
        simp only [decide_eq_true_eq] at hab hbc ⊢
        exact Nat.le_trans hbc hab
      · intro a b
        simp only [Bool.or_eq_true, decide_eq_true_eq]
        exact Nat.le_total b.2 a.2
    exact hsorted.imp fun hle => of_decide_eq_true hle
  · exact fun stage => ⟨haccounts.length_measured stage, report_latency _ stage⟩

/-- Of the three jobs of the sample load test one is a success, measured at every stage, and two
    are failures, counted under a reason each. -/
theorem loadRun_report : ReportAccounts loadEnd.driver loadEnd.driver.report ∧
    loadEnd.driver.report.succeeded = 1 ∧ loadEnd.driver.report.failed = 2 ∧
    (∀ stage, (measured loadEnd.driver stage).length = 1) ∧
    (loadEnd.driver.report.failures.map Prod.snd).sum = 2 ∧
    loadEnd.driver.finished.map (fun entry => entry.2.reason) =
      [.unknown, .reason .internalError, .lostByServer] := by
  have hone : loadEnd.driver.report.succeeded = 1 := by decide +kernel
  have htwo : loadEnd.driver.report.failed = 2 := by decide +kernel
  have haccounts := report_accounts (reachable_of_exec exec_loadRun)
  exact ⟨haccounts, hone, htwo, fun stage => (haccounts.latency stage).1.trans hone,
    haccounts.failures.1.trans htwo, by decide +kernel⟩

end LoadTest

end ContractPinger
