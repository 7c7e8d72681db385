import ContractPinger.Model.LoadDriver
import ContractPinger.Spec.JobViews
import ContractPinger.Spec.Services

/-!
# What the load driver reports

The driver learns of its jobs by asking for them, of a server that others use, that drops
records and that may be restarted. What it is told of a job that has finished, or of one that
is unknown, stays true for as long as the server runs; so its report is about what happened.

## Key results

- `loadInv_step`: what holds at each `await` of the driver
- `load_verdict`: what an entry of the report says of its job, and the exit code of them all
-/

namespace ContractPinger

open Machine

/-- A job that is accepted is the next of its service. -/
theorem World.handlePost_accepted {s : Setup} {w : World} {mode mode' : TxMode} {job : Nat}
    {state : JobState} (h : (w.handlePost s mode).2 = .accepted job state mode') :
    job = w.frames.length ∧ job < (w.handlePost s mode).1.frames.length := by
  unfold World.handlePost at h ⊢
  split
  · -- a refusal accepts nothing
    rename_i hfull
    rw [hfull] at h
    cases h
  · rename_i hroom
    rw [hroom] at h
    dsimp only at h
    split
    · rename_i limiter htry
      rw [htry] at h
      cases h
    · rename_i limiter htry
      rw [htry] at h
      cases h
      obtain ⟨f, hframes, _⟩ := World.start_fresh (w.setLimiter limiter) s mode
      have hlength := congrArg List.length hframes
      rw [List.length_append] at hlength
      exact ⟨rfl, Nat.lt_of_lt_of_eq (Nat.lt_succ_self _) hlength.symm⟩

namespace App

variable {c : Config} {app : App}

/-- Asking for a job is a lookup in the service that accepted it. -/
theorem getJob_eq (start : Nat) (id : JobId) : app.getJob start id =
    if id.start = start then
      (app.services id.environment).bind fun w => w.jobs.view id.job
    else none := by
  let found := if id.start = start then
      (app.services id.environment).bind fun w => w.jobs.view id.job
    else none
  have hask : (fun environment => (app.services environment).bind fun w =>
      if id.start = start ∧ id.environment = environment then w.jobs.view id.job else none) =
      fun environment => if id.environment = environment then found else none := by
    funext environment
    by_cases henvironment : id.environment = environment
    · subst henvironment
      by_cases hstart : id.start = start <;> simp [found, hstart]
    · simp [henvironment]
  show (bidirectionalEnvironments.findSome? _) = found
  rw [hask]
  -- one of the three networks is the one of the id
  cases id.environment <;> cases found <;> rfl

/-- A request that is accepted is authorized, and its job is the next of its network. -/
theorem post_accepted {request : PostRequest} {name : String} (hname : request.env = .string name)
    {job : Nat} {state : JobState} {mode : TxMode}
    (h : (app.post c request).2 = .accepted job state mode) :
    authorized c.env request = true ∧ ∃ environment,
      bidirectionalEnvironments.find? (fun e => e.name == name) = some environment ∧
      job = (app.serviceAt c environment).frames.length ∧
      (app.post c request).1.Hosts environment fun w => job < w.frames.length := by
  unfold post at h ⊢
  split
  · rename_i hsecret
    rw [if_pos hsecret] at h
    cases h
  · rename_i hsecret
    rw [if_neg hsecret] at h
    refine ⟨by simpa using hsecret, ?_⟩
    cases hmode : requestedMode c.env request.mode with
    | none =>
      rw [hmode] at h
      dsimp only at h
      revert h
      cases request.mode with
      | other rendered => cases rendered <;> simp [invalidMode, invalidMode.invalid]
      | _ => simp [invalidMode, invalidMode.invalid]
    | some mode' =>
      rw [hmode] at h
      dsimp only at h ⊢
      cases hresolve : app.resolve c request.env with
      | error e =>
        rw [hresolve] at h
        cases h
      | ok resolved =>
        cases resolved with
        | error error =>
          rw [hresolve] at h
          cases h
        | ok service =>
          obtain ⟨environment, w⟩ := service
          rw [hresolve] at h
          dsimp only at h ⊢
          have hw := resolve_service hresolve
          subst hw
          refine ⟨environment, ?_, ?_⟩
          · -- the network resolved is the one of that name
            rw [hname] at hresolve
            unfold resolve at hresolve
            dsimp only at hresolve
            split at hresolve
            · cases hresolve
            · rename_i found hfind
              split at hresolve
              · cases hresolve
              · cases hservice : app.getService c found with
                | error e =>
                  rw [hservice] at hresolve
                  cases hresolve
                | ok w' =>
                  rw [hservice] at hresolve
                  cases hresolve
                  exact hfind
          · obtain ⟨hjob, hlt⟩ := World.handlePost_accepted h
            exact ⟨hjob, _, by simp [App.setService], hlt⟩

end App

namespace LoadTest

variable {c : Config} {o : LoadOptions} {lt lt' : LoadTest}

/-! ## What is known of a job -/

/-- The property holds of the service that accepted the job, unless the server has been
    restarted since. -/
def Known (lt : LoadTest) (id : JobId) (P : World → Prop) : Prop :=
  id.start ≤ lt.start ∧ (id.start = lt.start → lt.app.Hosts id.environment P)

/-- What a step makes of the server. -/
theorem step_app {a : LoadAction} (hstep : step c o lt a = some lt') :
    lt'.start = lt.start ∧
        (lt'.app = lt.app ∨ ∃ action, App.step c lt.app action = some lt'.app) ∨
      lt'.start = lt.start + 1 ∧ lt'.app = App.new lt.app.now := by
  cases a with
  | server action =>
    obtain ⟨app, happ, rfl⟩ := Option.map_eq_some_iff.mp hstep
    exact .inl ⟨rfl, .inr ⟨action, happ⟩⟩
  | restart =>
    cases hstep
    exact .inr ⟨rfl, rfl⟩
  | answer =>
    simp only [step, answer] at hstep
    split at hstep
    · cases hstep
      exact .inl ⟨rfl, .inr ⟨.post o.request, rfl⟩⟩
    · cases hstep
      exact .inl ⟨rfl, .inl rfl⟩
    · cases hstep
      refine .inl ⟨rfl, ?_⟩
      dsimp only
      split
      · -- reading the stats touches the limiter of the network
        exact .inr ⟨.getStats (.string o.env), rfl⟩
      · exact .inl rfl
    · cases hstep
  | disconnect =>
    simp only [step] at hstep
    split at hstep
    · cases hstep
      exact .inl ⟨rfl, .inl rfl⟩
    · cases hstep
  | resume =>
    obtain ⟨driver, _, rfl⟩ := Option.map_eq_some_iff.mp hstep
    exact .inl ⟨rfl, .inl rfl⟩

/-- What is known for good stays known. -/
theorem Known.step {id : JobId} {P : World → Prop} (h : lt.Known id P)
    (hlimiter : ∀ w limiter, P w → P (w.setLimiter limiter))
    (hkeep : ∀ w a w', P w → World.step (c.setup id.environment) w a = some w' → P w')
    {a : LoadAction} (hstep : LoadTest.step c o lt a = some lt') : lt'.Known id P := by
  obtain ⟨hle, hhosts⟩ := h
  rcases step_app hstep with ⟨hstart, happ⟩ | ⟨hstart, -⟩
  · refine ⟨hstart ▸ hle, fun heq => ?_⟩
    have hosts := hhosts (heq.trans hstart)
    rcases happ with happ | ⟨action, happ⟩
    · rwa [happ]
    · exact hosts.step hlimiter hkeep happ
  · exact ⟨by omega, fun heq => absurd heq (by omega)⟩

/-- The job was accepted. -/
def Accepted (lt : LoadTest) (id : JobId) : Prop :=
  lt.Known id fun w => id.job < w.frames.length

/-- The job has ended, with this state the last of its record. -/
def EndedIn (lt : LoadTest) (id : JobId) (state : JobState) : Prop :=
  lt.Known id fun w => w.EndedIn id.job state

/-- The job has ended, and more jobs of its network than are retained. -/
def Forgotten (c : Config) (lt : LoadTest) (id : JobId) : Prop :=
  lt.Known id fun w => World.Forgotten (c.setup id.environment) w id.job

/-- A job accepted stays accepted. -/
theorem Accepted.step {id : JobId} {a : LoadAction} (h : lt.Accepted id)
    (hstep : LoadTest.step c o lt a = some lt') : lt'.Accepted id :=
  Known.step h (fun _ _ h => h)
    (fun _ _ _ h hstep => Nat.lt_of_lt_of_le h (World.frames_length_step hstep)) hstep

/-- How it ended stays. -/
theorem EndedIn.step {id : JobId} {state : JobState} {a : LoadAction} (h : lt.EndedIn id state)
    (hstep : LoadTest.step c o lt a = some lt') : lt'.EndedIn id state :=
  Known.step h (fun _ _ h => h) (fun _ _ _ h hstep => h.step hstep) hstep

/-- And it stays forgotten. -/
theorem Forgotten.step {id : JobId} {a : LoadAction} (h : lt.Forgotten c id)
    (hstep : LoadTest.step c o lt a = some lt') : lt'.Forgotten c id :=
  Known.step h (fun _ _ h => h) (fun _ _ _ h hstep => h.step hstep) hstep

/-- What the answer to a poll tells. -/
def Answered (c : Config) (lt : LoadTest) (id : JobId) : Option JobView → Prop
  | none => lt.Forgotten c id
  | some view =>
    view.Sound ∧ (view.record.state.terminal = true → lt.EndedIn id view.record.state)

/-- What an answer tells stays true. -/
theorem Answered.step {id : JobId} {answer : Option JobView} {a : LoadAction}
    (h : lt.Answered c id answer) (hstep : LoadTest.step c o lt a = some lt') :
    lt'.Answered c id answer := by
  cases answer with
  | none => exact Forgotten.step h hstep
  | some view => exact ⟨h.1, fun hterminal => (h.2 hterminal).step hstep⟩

/-- The answer is true when it is given. -/
theorem getJob_answered {now : Millis} (happ : Reachable (App.step c) (App.new now) lt.app)
    (hsecret : authorized c.env o.request = true) {id : JobId} (hid : lt.Accepted id) :
    lt.Answered c id (lt.getJob c o id) := by
  have hauthorized : authorized c.env { header := some o.secret } = true := hsecret
  rw [getJob, if_pos hauthorized, App.getJob_eq]
  by_cases hstart : id.start = lt.start
  · rw [if_pos hstart]
    obtain ⟨w, hw, hjob⟩ := hid.2 hstart
    obtain ⟨start, v, hv, heq⟩ := App.service_byItself happ hw
    have hreach := hv.reachable
    rw [hw, Option.bind_some]
    cases hget : w.jobs.get? id.job with
    | none =>
      rw [JobStore.view, hget]
      -- no record of a job that was accepted: it was dropped
      refine ⟨hid.1, fun _ => ⟨w, hw, ?_⟩⟩
      rw [heq] at hget hjob ⊢
      exact World.forgotten_of_gone hreach hjob hget
    | some r =>
      have hview : w.jobs.view id.job = some ⟨r, durationsFor r.timings⟩ := by
        rw [JobStore.view, hget]
        rfl
      rw [hview]
      rw [heq] at hget hview
      refine ⟨World.view_sound hreach hview, fun hterminal => ⟨hid.1, fun _ => ⟨w, hw, ?_⟩⟩⟩
      rw [heq]
      exact World.endedIn_of_finished hreach hget hterminal
  · -- a server started since knows nothing of the job
    rw [if_neg hstart]
    exact ⟨hid.1, fun heq => absurd heq hstart⟩

/-! ## What holds at each `await` of the driver -/

/-- What an entry of `finished` says. -/
def Told (c : Config) (lt : LoadTest) (id : JobId) : LoadOutcome → Prop
  | .job view =>
    view.record.state.terminal = true ∧ view.Sound ∧ lt.EndedIn id view.record.state
  | .lost => lt.Forgotten c id

/-- So does what an entry says. -/
theorem Told.step {id : JobId} {outcome : LoadOutcome} {a : LoadAction}
    (h : lt.Told c id outcome) (hstep : LoadTest.step c o lt a = some lt') :
    lt'.Told c id outcome := by
  cases outcome with
  | job view => exact ⟨h.1, h.2.1, h.2.2.step hstep⟩
  | lost => exact Forgotten.step h hstep

/-- Every job of the driver has responded. -/
def AllResponded (lt : LoadTest) : Prop :=
  ∀ id ∈ lt.driver.jobIds, ∃ view, (id, LoadOutcome.job view) ∈ lt.driver.finished ∧
    view.record.state = .responded

/-- What holds while the driver is suspended there. -/
def Awaits (c : Config) (o : LoadOptions) (lt : LoadTest) : DriverPc → Prop
  | .submitting (some (.accepted id)) =>
    lt.driver.jobIds.length < o.jobs ∧ id ∉ lt.driver.jobIds ∧
      authorized c.env o.request = true ∧ lt.Accepted id
  | .submitting _ => lt.driver.jobIds.length < o.jobs
  | .backingOff _ => lt.driver.jobIds.length < o.jobs
  | .sleeping _ => lt.driver.jobIds.length = o.jobs
  | .polling id rest answer =>
    lt.driver.jobIds.length = o.jobs ∧ id ∈ lt.driver.jobIds ∧ lt.driver.hasFinished id = false ∧
      (∀ other ∈ rest, other ∈ lt.driver.jobIds) ∧ ∀ view ∈ answer, lt.Answered c id view
  | .readingStats _ =>
    lt.driver.jobIds.length = o.jobs ∧ o.jobs ≤ lt.driver.finished.length
  | .exited code => code = 0 → lt.driver.jobIds.length = o.jobs ∧ lt.AllResponded

/-- What holds of the variables of the driver, wherever it is suspended. -/
structure Accounts (c : Config) (o : LoadOptions) (lt : LoadTest) : Prop where
  app : ∃ now, Reachable (App.step c) (App.new now) lt.app
  secret : lt.driver.jobIds ≠ [] → authorized c.env o.request = true
  bounded : lt.driver.jobIds.length ≤ o.jobs
  distinct : lt.driver.jobIds.Nodup
  accepted : ∀ id ∈ lt.driver.jobIds, lt.Accepted id
  once : (lt.driver.finished.map Prod.fst).Nodup
  told : ∀ entry ∈ lt.driver.finished, entry.1 ∈ lt.driver.jobIds ∧ lt.Told c entry.1 entry.2
  missed : ∀ id, lt.driver.hasFinished id = false → lt.driver.missing id < maxMisses

/-- Both. -/
structure LoadInv (c : Config) (o : LoadOptions) (lt : LoadTest) : Prop where
  accounts : lt.Accounts c o
  awaits : lt.Awaits c o lt.driver.pc

/-- Where the driver is suspended is no part of its accounts. -/
theorem Accounts.setPc (h : lt.Accounts c o) (pc : DriverPc) :
    Accounts c o { lt with driver := { lt.driver with pc } } :=
  ⟨h.app, h.secret, h.bounded, h.distinct, h.accepted, h.once, h.told, h.missed⟩

/-- The accounts after a step that leaves the driver's variables alone. -/
theorem Accounts.step {a : LoadAction} (h : lt.Accounts c o)
    (hstep : LoadTest.step c o lt a = some lt') (hids : lt'.driver.jobIds = lt.driver.jobIds)
    (hfinished : lt'.driver.finished = lt.driver.finished)
    (hmissing : lt'.driver.missing = lt.driver.missing) : lt'.Accounts c o where
  app := by
    obtain ⟨now, happ⟩ := h.app
    -- the server has gone on, or is a new one
    rcases step_app hstep with ⟨-, hsame | ⟨action, hone⟩⟩ | ⟨-, hnew⟩
    · exact ⟨now, hsame ▸ happ⟩
    · exact ⟨now, .tail action happ trivial hone⟩
    · exact ⟨lt.app.now, by rw [hnew]; exact .refl⟩
  secret := hids ▸ h.secret
  bounded := hids ▸ h.bounded
  distinct := hids ▸ h.distinct
  accepted id hid := (h.accepted id (hids ▸ hid)).step hstep
  once := hfinished ▸ h.once
  told entry hentry := by
    rw [hfinished] at hentry
    rw [hids]
    exact ⟨(h.told entry hentry).1, (h.told entry hentry).2.step hstep⟩
  missed id hid := by
    rw [hmissing]
    refine h.missed id ?_
    rwa [Driver.hasFinished, hfinished] at hid

/-! ## From one `await` to the next -/

/-- A job has finished, for the driver, once there is an entry for it. -/
theorem hasFinished_iff {d : Driver} {id : JobId} :
    d.hasFinished id = true ↔ id ∈ d.finished.map Prod.fst := by
  simp [Driver.hasFinished, List.any_eq_true]

/-- With all jobs submitted, a round of polls begins, or the report is due. -/
theorem Accounts.nextRound (h : lt.Accounts c o) (hall : lt.driver.jobIds.length = o.jobs) :
    LoadInv c o { lt with driver := lt.driver.nextRound o } := by
  unfold Driver.nextRound
  split
  · exact ⟨h.setPc _, hall⟩
  · rename_i hdone
    exact ⟨h.setPc _, hall, hall ▸ Nat.le_of_not_lt hdone⟩

/-- The next job is submitted, or all have been. -/
theorem Accounts.submit (h : lt.Accounts c o) :
    LoadInv c o { lt with driver := lt.driver.submit o } := by
  unfold Driver.submit
  split
  · rename_i hmore
    exact ⟨h.setPc _, hmore⟩
  · rename_i hdone
    exact h.nextRound (Nat.le_antisymm h.bounded (Nat.le_of_not_lt hdone))

/-- The next job of the round that has not finished is polled. -/
theorem Accounts.pollFrom (h : lt.Accounts c o) (hall : lt.driver.jobIds.length = o.jobs)
    {rest : List JobId} (hrest : ∀ id ∈ rest, id ∈ lt.driver.jobIds) :
    LoadInv c o { lt with driver := lt.driver.pollFrom o rest } := by
  unfold Driver.pollFrom
  -- skipping the finished jobs leaves some of the driver's own
  have hkept : ∀ id ∈ rest.dropWhile lt.driver.hasFinished, id ∈ lt.driver.jobIds :=
    fun id hid => hrest id ((List.dropWhile_sublist _).subset hid)
  have hfirst := List.head?_dropWhile_not lt.driver.hasFinished rest
  split
  · exact h.nextRound hall
  · rename_i id others heq
    rw [heq] at hkept hfirst
    have hfresh : lt.driver.hasFinished id = false := hfirst
    have hothers : ∀ other ∈ others, other ∈ lt.driver.jobIds :=
      fun other hother => hkept other (List.mem_cons_of_mem _ hother)
    exact ⟨h.setPc _, hall, hkept id List.mem_cons_self, hfresh, hothers,
      fun view hview => absurd hview (Option.not_mem_none view)⟩

/-- The entry of a job that has none. -/
theorem Accounts.finish (h : lt.Accounts c o) {id : JobId} (hid : id ∈ lt.driver.jobIds)
    (hfresh : lt.driver.hasFinished id = false) {outcome : LoadOutcome}
    (htold : lt.Told c id outcome) :
    Accounts c o { lt with driver := lt.driver.finish id outcome } := by
  refine ⟨h.app, h.secret, h.bounded, h.distinct, h.accepted, ?_, ?_, ?_⟩
  · -- an entry is made only for a job that has none
    have hnew : id ∉ lt.driver.finished.map Prod.fst := by
      rw [← hasFinished_iff, hfresh]
      exact nofun
    show ((lt.driver.finished ++ [(id, outcome)]).map Prod.fst).Nodup
    rw [List.map_append]
    refine List.nodup_append.mpr ⟨h.once, List.nodup_singleton _, ?_⟩
    intro a ha b hb heq
    rw [heq, List.mem_singleton.mp hb] at ha
    exact hnew ha
  · intro entry hentry
    rcases List.mem_append.mp hentry with hold | hnew
    · exact h.told entry hold
    · rw [List.mem_singleton.mp hnew]
      exact ⟨hid, htold⟩
  · intro other hother
    refine h.missed other ?_
    have hany : ((lt.driver.finished ++ [(id, outcome)]).any fun entry => entry.1 == other) =
      false := hother
    rw [List.any_append, Bool.or_eq_false_iff] at hany
    exact hany.1

/-- Counting the misses of a job, below the bound. -/
theorem Accounts.setMissing (h : lt.Accounts c o) (id : JobId) {misses : Nat}
    (hless : lt.driver.hasFinished id = false → misses < maxMisses) :
    Accounts c o { lt with driver :=
      { lt.driver with missing := Function.update lt.driver.missing id misses } } := by
  refine ⟨h.app, h.secret, h.bounded, h.distinct, h.accepted, h.once, h.told,
    fun other hother => ?_⟩
  show Function.update lt.driver.missing id misses other < _
  by_cases heq : other = id
  · subst heq
    rw [Function.update_self]
    exact hless hother
  · rw [Function.update_of_ne heq]
    exact h.missed other hother

/-- The answer to a poll is entered in the two maps. -/
theorem Accounts.polled (h : lt.Accounts c o) {id : JobId} (hid : id ∈ lt.driver.jobIds)
    (hfresh : lt.driver.hasFinished id = false) {answer : Option JobView}
    (hanswer : lt.Answered c id answer) :
    Accounts c o { lt with driver := lt.driver.polled id answer } := by
  have hentered : ∀ outcome, (lt.driver.finish id outcome).hasFinished id = true := by
    intro outcome
    simp [Driver.finish, Driver.hasFinished]
  cases answer with
  | none =>
    unfold Driver.polled
    dsimp only
    split
    · -- entered as lost, so its misses count no more
      have htold : lt.Told c id .lost := hanswer
      exact (h.finish hid hfresh htold).setMissing id fun hnot =>
        absurd ((hentered .lost).symm.trans hnot) nofun
    · rename_i hfew
      exact h.setMissing id fun _ => Nat.lt_of_not_le hfew
  | some view =>
    unfold Driver.polled
    dsimp only
    split
    · rename_i hterminal
      have htold : lt.Told c id (.job view) := ⟨hterminal, hanswer.1, hanswer.2 hterminal⟩
      exact (h.finish hid hfresh htold).setMissing id fun hnot =>
        absurd ((hentered (.job view)).symm.trans hnot) nofun
    · exact h.setMissing id fun _ => (by decide)

/-- A job more. -/
theorem Accounts.addJob (h : lt.Accounts c o) {id : JobId}
    (hmore : lt.driver.jobIds.length < o.jobs) (hid : id ∉ lt.driver.jobIds)
    (hsecret : authorized c.env o.request = true) (haccepted : lt.Accepted id) :
    Accounts c o { lt with driver :=
      { lt.driver with jobIds := lt.driver.jobIds ++ [id] } } := by
  refine ⟨h.app, fun _ => hsecret, ?_, ?_, ?_, h.once, ?_, h.missed⟩
  · show (lt.driver.jobIds ++ [id]).length ≤ o.jobs
    rw [List.length_append, List.length_singleton]
    exact hmore
  · refine List.nodup_append.mpr ⟨h.distinct, List.nodup_singleton _, ?_⟩
    -- the id is not among those the driver has
    intro a ha b hb heq
    rw [heq, List.mem_singleton.mp hb] at ha
    exact hid ha
  · intro other hother
    rcases List.mem_append.mp hother with hold | hnew
    · exact h.accepted other hold
    · rw [List.mem_singleton.mp hnew]
      exact haccepted
  · exact fun entry hentry =>
      ⟨List.mem_append_left _ (h.told entry hentry).1, (h.told entry hentry).2⟩

/-- Polling submits nothing. -/
theorem polled_jobIds (d : Driver) (id : JobId) (answer : Option JobView) :
    (d.polled id answer).jobIds = d.jobIds := by
  cases answer with
  | none =>
    unfold Driver.polled
    dsimp only
    split <;> rfl
  | some view =>
    unfold Driver.polled
    dsimp only
    split <;> rfl

/-- The exit code is zero when no entry is a failure. -/
theorem exitCode_eq_zero {d : Driver} :
    d.exitCode = 0 ↔ ∀ entry ∈ d.finished, entry.2.failed = false := by
  unfold Driver.exitCode
  split
  · rename_i hany
    refine iff_of_false (by decide) fun hnone => ?_
    obtain ⟨entry, hentry, hfailed⟩ := List.any_eq_true.mp hany
    rw [hnone entry hentry] at hfailed
    cases hfailed
  · rename_i hnone
    refine iff_of_true rfl fun entry hentry => ?_
    rw [Bool.not_eq_true, List.any_eq_false] at hnone
    exact Bool.not_eq_true _ ▸ hnone entry hentry

/-- With as many entries as jobs, every job has one. -/
theorem Accounts.all_entered (h : lt.Accounts c o)
    (hall : lt.driver.jobIds.length ≤ lt.driver.finished.length) {id : JobId}
    (hid : id ∈ lt.driver.jobIds) : ∃ outcome, (id, outcome) ∈ lt.driver.finished := by
  have hsub : lt.driver.finished.map Prod.fst ⊆ lt.driver.jobIds := by
    intro key hkey
    obtain ⟨entry, hentry, rfl⟩ := List.mem_map.mp hkey
    exact (h.told entry hentry).1
  have hkeys := List.mem_iff_of_subset_of_length_le h.once hsub (by rwa [List.length_map])
  obtain ⟨entry, hentry, rfl⟩ := List.mem_map.mp ((hkeys id).mpr hid)
  exact ⟨entry.2, hentry⟩

/-- The exit code tells whether all have responded. -/
theorem Accounts.exitCode_iff (h : lt.Accounts c o)
    (hall : lt.driver.jobIds.length ≤ lt.driver.finished.length) :
    lt.driver.exitCode = 0 ↔ lt.AllResponded := by
  rw [exitCode_eq_zero]
  constructor
  · intro hnone id hid
    obtain ⟨outcome, hentry⟩ := h.all_entered hall hid
    have hunfailed := hnone _ hentry
    cases outcome with
    | lost => cases hunfailed
    | job view =>
      refine ⟨view, hentry, ?_⟩
      have hterminal := (h.told _ hentry).2.1
      revert hterminal hunfailed
      simp only [LoadOutcome.failed, LoadOutcome.state, JobState.terminal]
      cases view.record.state <;> simp
  · intro hresponded entry hentry
    obtain ⟨view, hview, hstate⟩ := hresponded entry.1 (h.told entry hentry).1
    -- a job has one entry
    have hsame : entry = (entry.1, LoadOutcome.job view) :=
      List.inj_on_of_nodup_map h.once hentry hview rfl
    rw [hsame]
    simp [LoadOutcome.failed, LoadOutcome.state, hstate]

/-- The driver's own steps keep its accounts. -/
theorem LoadInv.resume (h : lt.LoadInv c o) {driver : Driver}
    (hresume : lt.driver.resume o = some driver) : LoadInv c o { lt with driver } := by
  have hawaits := h.awaits
  unfold Driver.resume at hresume
  split at hresume
  · cases hresume
  · rename_i id hpc
    cases hresume
    rw [hpc] at hawaits
    -- 202: the id is new, and the server has the job
    obtain ⟨hmore, hid, hsecret, haccepted⟩ := hawaits
    exact (h.accounts.addJob hmore hid hsecret haccepted).submit
  · rename_i hpc
    cases hresume
    rw [hpc] at hawaits
    exact ⟨⟨h.accounts.app, h.accounts.secret, h.accounts.bounded, h.accounts.distinct,
      h.accounts.accepted, h.accounts.once, h.accounts.told, h.accounts.missed⟩, hawaits⟩
  · cases hresume
    exact ⟨h.accounts.setPc _, nofun⟩
  · cases hresume
    exact h.accounts.submit
  · rename_i hpc
    cases hresume
    rw [hpc] at hawaits
    exact h.accounts.pollFrom hawaits fun _ hid => hid
  · cases hresume
  · rename_i id rest answer hpc
    cases hresume
    rw [hpc] at hawaits
    -- the answer to a poll, which is entered if it is final
    obtain ⟨hall, hid, hfresh, hrest, hanswer⟩ := hawaits
    have hpolled := h.accounts.polled hid hfresh (hanswer answer rfl)
    have hids : (lt.driver.polled id answer).jobIds = lt.driver.jobIds := polled_jobIds _ _ _
    refine hpolled.pollFrom ?_ ?_
    · exact hids.symm ▸ hall
    · exact hids.symm ▸ hrest
  · cases hresume
  · rename_i hpc
    cases hresume
    rw [hpc] at hawaits
    -- the report, made with an entry for every job
    obtain ⟨hall, hentries⟩ := hawaits
    refine ⟨h.accounts.setPc _, fun hzero => ⟨hall, ?_⟩⟩
    exact (h.accounts.exitCode_iff (hall.trans_le hentries)).mp hzero
  · cases hresume

/-- A suspended driver is not touched by what the server does. -/
theorem Awaits.step {pc : DriverPc} (h : lt.Awaits c o pc) {a : LoadAction}
    (hdriver : lt'.driver = lt.driver) (hstep : LoadTest.step c o lt a = some lt') :
    lt'.Awaits c o pc := by
  unfold Awaits AllResponded at h ⊢
  rw [hdriver]
  -- the driver itself stands still, so only what the service has told it may change
  cases pc with
  | submitting answer =>
    cases answer with
    | none => exact h
    | some answer =>
      cases answer with
      | accepted id => exact ⟨h.1, h.2.1, h.2.2.1, Accepted.step h.2.2.2 hstep⟩
      | _ => exact h
  | polling id rest answer =>
    exact ⟨h.1, h.2.1, h.2.2.1, h.2.2.2.1, fun view hview =>
      (h.2.2.2.2 view hview).step hstep⟩
  | _ => exact h

/-- So do the answers of its server. -/
theorem LoadInv.answer (h : lt.LoadInv c o) (hanswer : lt.answer c o = some lt') :
    LoadInv c o lt' := by
  have hawaits := h.awaits
  have hstep : LoadTest.step c o lt .answer = some lt' := hanswer
  unfold LoadTest.answer at hanswer
  split at hanswer
  · rename_i hpc
    cases hanswer
    rw [hpc] at hawaits
    refine ⟨h.accounts.step hstep rfl rfl rfl, ?_⟩
    dsimp only
    cases hposted : (lt.app.post c o.request).2 with
    | accepted job state mode =>
      have hnamed : o.request.env = .string o.env := rfl
      obtain ⟨hsecret, environment, hnetwork, hjob, hhosts⟩ := App.post_accepted hnamed hposted
      rw [hnetwork]
      refine ⟨hawaits, fun hid => ?_, hsecret, Nat.le_refl _, fun _ => hhosts⟩
      -- the id is beyond those of the jobs accepted so far
      obtain ⟨w, hw, hless⟩ := (h.accounts.accepted _ hid).2 rfl
      rw [hjob, App.serviceAt_of_services hw] at hless
      exact Nat.lt_irrefl _ hless
    | _ => exact hawaits
  · rename_i id rest hpc
    cases hanswer
    rw [hpc] at hawaits
    obtain ⟨hall, hid, hfresh, hrest, -⟩ := hawaits
    obtain ⟨now, happ⟩ := h.accounts.app
    refine ⟨h.accounts.setPc _, hall, hid, hfresh, hrest, fun view hview => ?_⟩
    cases hview
    have hsecret := h.accounts.secret (List.ne_nil_of_mem hid)
    exact getJob_answered happ hsecret (h.accounts.accepted id hid)
  · rename_i hpc
    cases hanswer
    rw [hpc] at hawaits
    exact ⟨h.accounts.step hstep rfl rfl rfl, hawaits⟩
  · cases hanswer

/-- What holds at each `await` of the driver, whatever happens next. -/
theorem loadInv_step {a : LoadAction} (h : lt.LoadInv c o)
    (hstep : step c o lt a = some lt') : lt'.LoadInv c o := by
  cases a with
  | server action =>
    -- what the server does by itself is not seen by the driver
    have hdriver : lt'.driver = lt.driver := by
      obtain ⟨app, _, rfl⟩ := Option.map_eq_some_iff.mp hstep
      rfl
    refine ⟨h.accounts.step hstep ?_ ?_ ?_, hdriver ▸ h.awaits.step hdriver hstep⟩ <;> rw [hdriver]
  | restart =>
    have hdriver : lt'.driver = lt.driver := by
      cases hstep
      rfl
    refine ⟨h.accounts.step hstep ?_ ?_ ?_, hdriver ▸ h.awaits.step hdriver hstep⟩ <;> rw [hdriver]
  | answer => exact h.answer hstep
  | disconnect =>
    simp only [step] at hstep
    split at hstep
    · cases hstep
      exact ⟨h.accounts.setPc _, nofun⟩
    · cases hstep
  | resume =>
    obtain ⟨driver, hresume, rfl⟩ := Option.map_eq_some_iff.mp hstep
    exact h.resume hresume

/-- A load test that starts. -/
theorem loadInv_new (c : Config) (o : LoadOptions) (now : Millis) : LoadInv c o (new o now) := by
  have hnone : Accounts c o { app := App.new now, driver := {} } :=
    ⟨⟨now, .refl⟩, fun hne => absurd rfl hne, Nat.zero_le _, List.nodup_nil,
      fun _ hid => (nomatch hid), List.nodup_nil, fun _ hentry => (nomatch hentry),
      fun _ _ => Nat.zero_lt_succ 4⟩
  unfold new Driver.new
  split
  · exact ⟨hnone.setPc _, nofun⟩
  · exact hnone.submit

/-- The driver's accounts are right in every reachable state. -/
theorem loadInv_reachable {now : Millis} (h : Reachable (step c o) (new o now) lt) :
    lt.LoadInv c o :=
  h.invariant (loadInv_new c o now) fun _ _ _ hinv _ hstep => loadInv_step hinv hstep

/-- What the variables of the driver say of its jobs. -/
structure Verdict (c : Config) (o : LoadOptions) (lt : LoadTest) : Prop where
  /-- Its jobs are distinct, and no more than it was told to start. -/
  jobs : lt.driver.jobIds.Nodup ∧ lt.driver.jobIds.length ≤ o.jobs
  /-- Each has one entry at most. -/
  once : (lt.driver.finished.map Prod.fst).Nodup
  /-- An entry with a record: the job has ended so. -/
  ended : ∀ id view, (id, LoadOutcome.job view) ∈ lt.driver.finished →
    id ∈ lt.driver.jobIds ∧ view.record.state.terminal = true ∧ view.Sound ∧
      lt.EndedIn id view.record.state
  /-- An entry without one: the job has ended too, and so many others that it was dropped; or
      the server was restarted. -/
  lost : ∀ id, (id, LoadOutcome.lost) ∈ lt.driver.finished →
    id ∈ lt.driver.jobIds ∧ lt.Forgotten c id
  /-- When it reports, every job it was to start has its entry, and the exit code is zero
      exactly if all of them have responded. -/
  report : ∀ answered, lt.driver.pc = .readingStats answered →
    lt.driver.jobIds.length = o.jobs ∧
      (∀ id ∈ lt.driver.jobIds, ∃ outcome, (id, outcome) ∈ lt.driver.finished) ∧
      (lt.driver.exitCode = 0 ↔ lt.AllResponded)
  /-- It does not exit with zero otherwise. -/
  success : lt.driver.pc = .exited 0 → lt.driver.jobIds.length = o.jobs ∧ lt.AllResponded

/-- Whatever others do on the server and even if it is restarted: what the driver says of its
    jobs is what has become of them. -/
theorem load_verdict {now : Millis} (h : Reachable (step c o) (new o now) lt) :
    Verdict c o lt := by
  obtain ⟨haccounts, hawaits⟩ := loadInv_reachable h
  refine ⟨⟨haccounts.distinct, haccounts.bounded⟩, haccounts.once, ?_, ?_, ?_, ?_⟩
  · intro id view hentry
    exact haccounts.told _ hentry
  · intro id hentry
    exact haccounts.told _ hentry
  · intro answered hpc
    rw [hpc] at hawaits
    obtain ⟨hall, hentries⟩ := hawaits
    have hmany := hall.trans_le hentries
    exact ⟨hall, fun id hid => haccounts.all_entered hmany hid, haccounts.exitCode_iff hmany⟩
  · intro hpc
    rw [hpc] at hawaits
    exact hawaits rfl

/-- A server for the network of the sample jobs. -/
def loadConfig : Config where
  env := { World.sampleSetup.env with
    apiSecret := some "secret"
    ethRpcUrlSepolia := "http://localhost:8545" }
  libs := World.sampleSetup.libs

/-- A load test of three jobs. -/
def loadOptions : LoadOptions :=
  { jobs := 3, env := "dev", mode := "eth_self_transfer", secret := "secret" }

/-- What its server does for the jobs, their arrival apart. -/
def served : Action → AppAction
  | .clock now => .clock now
  | action => .service .dev action

/-- A job gets an address, and its preflight fails. -/
def fails (job : Nat) : List Action :=
  List.replicate 4 (.resume job .resume) ++
    [.resume job (.throw { message := "timeout" }), .resume job .resume]

/-- The jobs are submitted. The first responds, the second fails, and of the third the driver is
    told that it goes on. -/
def polledRun : List LoadAction :=
  [.answer, .resume, .answer, .resume, .answer, .resume] ++
    ((World.respondedRun.tail ++ fails 1).map fun action => .server (served action)) ++
    [.resume, .answer, .resume, .answer, .resume, .answer]

/-- With the server restarted, the third is missed until it is given up. -/
def missedRun : List LoadAction :=
  .resume :: (List.replicate 5 [LoadAction.resume, .answer, .resume]).flatten ++ [.answer, .resume]

def loadRun : List LoadAction := polledRun ++ [.restart] ++ missedRun

def loadEnd : LoadTest :=
  (exec (step loadConfig loadOptions) (new loadOptions 0) loadRun).getD (new loadOptions 0)

theorem exec_loadRun : exec (step loadConfig loadOptions) (new loadOptions 0) loadRun =
    some loadEnd :=
  exec_getD (by decide +kernel) _

/-- One job has responded, one has failed and one is lost: the driver exits with a failure. -/
theorem loadRun_verdict : Verdict loadConfig loadOptions loadEnd ∧
    loadEnd.driver.pc = .exited 1 ∧
    loadEnd.driver.finished.map (fun entry => (entry.1.job, entry.2.state)) =
      [(0, .responded), (1, .failed), (2, .failed)] ∧
    (⟨0, .dev, 2⟩, LoadOutcome.lost) ∈ loadEnd.driver.finished :=
  ⟨load_verdict (reachable_of_exec exec_loadRun), by decide +kernel, by decide +kernel,
    by decide +kernel⟩

end LoadTest

end ContractPinger
