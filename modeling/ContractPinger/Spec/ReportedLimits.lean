import ContractPinger.Spec.Admission

/-!
# The limits a 429 reports

The ceilings and the rate that refuse a request belong to the objects of its service, which
the constructor fixes on mainnet; the figures of the answer are read from the configuration.
They are the same figures on `dev` and `testnet`, and on mainnet only by coincidence.

## Key results

- `service_invariant`: what admitted starts and all other steps keep holds of every service
- `mainnet_live`: mainnet holds no more live jobs than its respond ceiling
- `reports_limits`: when the figures of a refusal are the ones in force
-/

namespace ContractPinger

open Machine

namespace JobStore

/-- A store that refuses for its active jobs has reached that ceiling. -/
theorem active_reached {store : JobStore} (h : store.atCapacity = some .active) :
    store.maxActiveJobs ≤ store.activeCount := by
  unfold atCapacity at h
  split at h
  · assumption
  · split at h <;> cases h

/-- The same of the respond waits. -/
theorem awaitingRespond_reached {store : JobStore}
    (h : store.atCapacity = some .awaitingRespond) :
    store.maxJobs ≤ store.awaitingRespondCount := by
  unfold atCapacity at h
  split at h
  · cases h
  · split at h
    · assumption
    · cases h

end JobStore

namespace World

/-- How many requests the service has accepted in the last minute. -/
def acceptedLastMinute (w : World) : Nat :=
  w.starts.countP fun job => decide (w.now - 60000 < job.2 ∧ job.2 ≤ w.now)

/-- A 429 for a full store names the ceiling that is reached. -/
theorem handlePost_full {s : Setup} {w : World} {mode : TxMode} {seconds : Int}
    {body : CapacityRefusal} (h : (w.handlePost s mode).2 = .full seconds body) :
    ∃ limit, w.jobs.atCapacity = some limit ∧
      .full seconds body = capacityRefusal s.env w.jobs limit := by
  unfold handlePost at h
  split at h
  · rename_i limit hcapacity
    exact ⟨limit, hcapacity, h.symm⟩
  · split at h <;> cases h

/-- A 429 for the rate is answered when no slot is free. -/
theorem handlePost_rateLimited {s : Setup} {w : World} {mode : TxMode} {seconds : Int}
    {limitPerMinute : Nat} {retryAfterMs : Millis}
    (h : (w.handlePost s mode).2 = .rateLimited seconds limitPerMinute retryAfterMs) :
    limitPerMinute = s.env.bidirectional.maxRequestsPerMinute ∧
      w.limiter.limit ≤ (w.limiter.prune w.now).hits.length := by
  unfold handlePost at h
  split at h
  · cases h
  · split at h
    · rename_i limiter htry
      cases h
      exact ⟨rfl, (RateLimiter.tryAcquire_false htry).2⟩
    · cases h

/-- What the two ceilings make of the live jobs. -/
structure CeilingInv (s : Setup) (w : World) : Prop where
  maxJobs : w.jobs.maxJobs = s.maxJobs
  live : s.maxActiveJobs ≤ 1 → w.jobs.liveCount ≤ s.maxJobs

/-- A new service has the ceiling of its network, and no live job. -/
theorem ceilingInv_new (s : Setup) (now : Millis) : CeilingInv s (World.new s now) where
  maxJobs := rfl
  live _ := Nat.zero_le _

/-- With one active job at most, an admission finds room among the live jobs. -/
theorem CeilingInv.step {s : Setup} {w w' : World} {a : Action} (h : CeilingInv s w)
    (hservice : ServiceInv s w) (hadmitted : w.Admitted a) (hstep : World.step s w a = some w') :
    CeilingInv s w' where
  maxJobs := (ceilings_step hservice.jobs hstep).1.trans h.maxJobs
  live := by
    intro hone
    by_cases hstart : ∃ mode, a = .start mode
    · obtain ⟨mode, rfl⟩ := hstart
      cases hstep
      obtain ⟨hactive, hrespond⟩ := below_of_atCapacity (hadmitted mode rfl)
      have hadded := JobStore.create_countP_le s.environment mode w.now
        hservice.jobs.ids_concat_nodup fun r => !r.state.terminal
      -- nobody is active, so the live jobs are those that await
      have hlive : w.jobs.liveCount < s.maxJobs := by
        rw [hservice.maxActive] at hactive
        rw [h.maxJobs] at hrespond
        unfold JobStore.liveCount
        omega
      rw [JobStore.liveCount_eq] at hlive
      rw [start_jobs, JobStore.liveCount_eq]
      omega
    · have hle := liveCount_step_le hservice.jobs hstep fun mode hmode => hstart ⟨mode, hmode⟩
      have hbefore := h.live hone
      omega

end World

namespace App

variable {c : Config} {app app' : App}

/-! ## Invariants of the services -/

/-- What a new service has, and what the limiter, admitted starts and all other steps of a
    service keep, holds of every service of the server. -/
theorem service_invariant {I : Setup → World → Prop} (hnew : ∀ s now, I s (World.new s now))
    (hlimiter : ∀ s w limiter, I s w → I s (w.setLimiter limiter))
    (hkeep : ∀ s w a w', w.ServiceInv s → w.Admitted a → I s w →
      World.step s w a = some w' → I s w')
    {start : Millis} (h : Reachable (step c) (App.new start) app) (environment : Environment) :
    I (c.setup environment) (app.serviceAt c environment) := by
  -- beside the bounds, which every step keeps
  have hboth : Each (fun s w => w.ServiceInv s ∧ I s w) c app := by
    refine h.invariant (fun _ _ hw => nomatch hw) fun _ _ _ hI _ hstep => hI.step ?_ ?_ ?_ hstep
    · exact fun s now => ⟨World.serviceInv_new s now, hnew s now⟩
    · exact fun s w limiter hlimit hwindow hw =>
        ⟨hw.1.setLimiter hlimit hwindow, hlimiter s w limiter hw.2⟩
    · exact fun s w a w' hadmitted hw hstep =>
        ⟨hw.1.step hadmitted hstep, hkeep s w a w' hw.1 hadmitted hw.2 hstep⟩
  exact (hboth.serviceAt (fun s => ⟨World.serviceInv_new s _, hnew s _⟩) environment).2

/-- The service a request is given keeps to its ceilings. -/
theorem ceilingInv_reachable {start : Millis} (h : Reachable (step c) (App.new start) app)
    (environment : Environment) :
    (app.serviceAt c environment).CeilingInv (c.setup environment) :=
  service_invariant World.ceilingInv_new (fun _ _ _ hI => ⟨hI.maxJobs, hI.live⟩)
    (fun _ _ _ _ hw hadmitted hI hstep => hI.step hw hadmitted hstep) h environment

/-- Mainnet holds no more live jobs than its respond ceiling. -/
theorem mainnet_live {start : Millis} (h : Reachable (step c) (App.new start) app) :
    (app.serviceAt c .mainnet).jobs.liveCount ≤ 2 :=
  (ceilingInv_reachable h .mainnet).live (Nat.le_refl 1)

/-! ## The refusals -/

/-- A request that is refused for its service's limits has got as far as the handler. -/
theorem post_refused {request : PostRequest} {environment : Environment} {w : World}
    (hresolve : app.resolve c request.env = .ok (.ok (environment, w)))
    (hstatus : (app.post c request).2.status = 429) :
    ∃ mode, (app.post c request).2 = (w.handlePost (c.setup environment) mode).2 := by
  unfold post at hstatus ⊢
  split at hstatus
  · simp [Response.status] at hstatus
  · split at hstatus
    · -- a mode that `isTxMode` refuses, however it is rendered
      revert hstatus
      cases request.mode with
      | other rendered =>
        cases rendered <;> simp [invalidMode, invalidMode.invalid, Response.status]
      | _ => simp [invalidMode, invalidMode.invalid, Response.status]
    · rename_i hauthorized _ mode _
      rw [if_neg hauthorized, hresolve]
      exact ⟨mode, rfl⟩

/-- While the clock does not go back, a free-running limiter's slots are the requests of the
    last minute. -/
theorem acceptedLastMinute_eq {start : Millis}
    (h : ReachableUnder (step c) ClockForward (App.new start) app) (environment : Environment) :
    (app.serviceAt c environment).acceptedLastMinute =
      ((app.serviceAt c environment).limiter.prune
        (app.serviceAt c environment).now).hits.length := by
  obtain ⟨_, hremembers⟩ := (slotsInv_reachable h).serviceAt c environment
  have hservice := (appInv_reachable h.reachable).serviceAt environment
  rw [hremembers.prune_hits, hservice.window, SlidingWindow.within, ← List.countP_eq_length_filter,
    List.countP_map, World.acceptedLastMinute]
  refine List.countP_congr fun job hjob => ?_
  -- nothing has been accepted later than now
  have hpast := hremembers.past job.2 (List.mem_map_of_mem hjob)
  simp [hpast]

/-- The figures of a 429, against the counts they are compared with and the limits in force. -/
structure ReportsLimits (c : Config) (app : App) (request : PostRequest) : Prop where
  /-- The ceiling of the active jobs. -/
  active : ∀ environment w seconds body,
    app.resolve c request.env = .ok (.ok (environment, w)) →
    (app.post c request).2 = .full seconds body → body.limit = .active →
    body.activeJobs = w.jobs.activeCount ∧
    (body.maxActiveJobs ≤ body.activeJobs ↔
      (environment = .mainnet → c.env.bidirectional.maxActiveJobs ≤ 1)) ∧
    (body.maxActiveJobs = w.jobs.maxActiveJobs ↔
      (environment = .mainnet → c.env.bidirectional.maxActiveJobs = 1))
  /-- The ceiling of the respond waits. -/
  awaitingRespond : ∀ environment w seconds body,
    app.resolve c request.env = .ok (.ok (environment, w)) →
    (app.post c request).2 = .full seconds body → body.limit = .awaitingRespond →
    body.awaitingRespond = w.jobs.awaitingRespondCount ∧
    (body.maxAwaitingRespond ≤ body.awaitingRespond ↔
      (environment = .mainnet → c.env.bidirectional.maxJobs ≤ 2)) ∧
    (body.maxAwaitingRespond = w.jobs.maxJobs ↔
      (environment = .mainnet → c.env.bidirectional.maxJobs = 2))
  /-- The rate. -/
  rate : ∀ environment w seconds limitPerMinute retryAfterMs,
    app.resolve c request.env = .ok (.ok (environment, w)) →
    (app.post c request).2 = .rateLimited seconds limitPerMinute retryAfterMs →
    (limitPerMinute = w.limiter.limit ↔
      (environment = .mainnet → c.env.bidirectional.maxRequestsPerMinute = 1))

/-- A figure that mainnet fixes agrees with the configured one on the other networks. -/
theorem configured_eq_iff (environment : Environment) (configured fixed : Nat) :
    (configured = if environment = .mainnet then fixed else configured) ↔
      (environment = .mainnet → configured = fixed) := by
  split <;> simp_all

/-- A count that has reached the limit in force, and on mainnet has not passed it, has reached
    the configured one just where that is no greater. -/
theorem configured_le_iff (environment : Environment) {configured fixed count : Nat}
    (hreached : (if environment = .mainnet then fixed else configured) ≤ count)
    (hbound : environment = .mainnet → count ≤ fixed) :
    configured ≤ count ↔ (environment = .mainnet → configured ≤ fixed) := by
  constructor
  · intro hle hmainnet
    exact Nat.le_trans hle (hbound hmainnet)
  · intro himp
    by_cases hmainnet : environment = .mainnet
    · rw [if_pos hmainnet] at hreached
      exact Nat.le_trans (himp hmainnet) hreached
    · rwa [if_neg hmainnet] at hreached

/-- When the figures of a refusal are those in force, for every request in every reachable
    state; and of the rate, while the clock does not go back, when as many requests were
    accepted in the last minute. -/
theorem reports_limits {start : Millis} (h : Reachable (step c) (App.new start) app)
    (request : PostRequest) : ReportsLimits c app request ∧
      (ReachableUnder (step c) ClockForward (App.new start) app →
        ∀ environment w seconds limitPerMinute retryAfterMs,
          app.resolve c request.env = .ok (.ok (environment, w)) →
          (app.post c request).2 = .rateLimited seconds limitPerMinute retryAfterMs →
          (limitPerMinute ≤ w.acceptedLastMinute ↔
            (environment = .mainnet → c.env.bidirectional.maxRequestsPerMinute ≤ 1))) := by
  have hinv := appInv_reachable h
  refine ⟨⟨?_, ?_, ?_⟩, ?_⟩
  · intro environment w seconds body hresolve hanswer hlimit
    have hw := resolve_service hresolve
    subst hw
    obtain ⟨mode, hpost⟩ := post_refused hresolve (by rw [hanswer]; rfl)
    obtain ⟨limit, hcapacity, hbody⟩ := World.handlePost_full (hpost.symm.trans hanswer)
    cases hbody
    cases hlimit
    have hservice := hinv.serviceAt environment
    have hreached := JobStore.active_reached hcapacity
    rw [hservice.maxActive] at hreached
    refine ⟨rfl, configured_le_iff environment hreached ?_, ?_⟩
    · rintro rfl
      exact hservice.active
    · rw [hservice.maxActive]
      exact configured_eq_iff environment _ 1
  · intro environment w seconds body hresolve hanswer hlimit
    have hw := resolve_service hresolve
    subst hw
    obtain ⟨mode, hpost⟩ := post_refused hresolve (by rw [hanswer]; rfl)
    obtain ⟨limit, hcapacity, hbody⟩ := World.handlePost_full (hpost.symm.trans hanswer)
    cases hbody
    cases hlimit
    have hceiling := (ceilingInv_reachable h environment).maxJobs
    have hreached := JobStore.awaitingRespond_reached hcapacity
    rw [hceiling] at hreached
    refine ⟨rfl, configured_le_iff environment hreached ?_, ?_⟩
    · -- those that await the respond are live
      rintro rfl
      exact Nat.le_trans (Nat.le_add_left _ _) (mainnet_live h)
    · rw [hceiling]
      exact configured_eq_iff environment _ 2
  · intro environment w seconds limitPerMinute retryAfterMs hresolve hanswer
    have hw := resolve_service hresolve
    subst hw
    obtain ⟨mode, hpost⟩ := post_refused hresolve (by rw [hanswer]; rfl)
    obtain ⟨rfl, _⟩ := World.handlePost_rateLimited (hpost.symm.trans hanswer)
    rw [(hinv.serviceAt environment).limit]
    exact configured_eq_iff environment _ 1
  · intro hforward environment w seconds limitPerMinute retryAfterMs hresolve hanswer
    have hw := resolve_service hresolve
    subst hw
    obtain ⟨mode, hpost⟩ := post_refused hresolve (by rw [hanswer]; rfl)
    obtain ⟨rfl, hfull⟩ := World.handlePost_rateLimited (hpost.symm.trans hanswer)
    have hcount := acceptedLastMinute_eq (c := c) hforward environment
    rw [(hinv.serviceAt environment).limit, ← hcount] at hfull
    refine configured_le_iff environment hfull ?_
    -- on mainnet no window of a minute holds more than one
    rintro rfl
    have hservice := hinv.serviceAt .mainnet
    have hbound := ((slotsInv_reachable hforward).serviceAt c .mainnet).2.bounded
      ((app.serviceAt c .mainnet).now - 60000)
    rw [hservice.window, hservice.limit, List.countP_map] at hbound
    refine Nat.le_trans (List.countP_mono_left fun job _ hjob => ?_) hbound
    simpa using hjob

/-- Where mainnet is served, the request goes to its service. -/
theorem resolve_sampleRequest (h : (app.services .mainnet).isSome = true) :
    app.resolve sampleConfig sampleRequest.env =
      .ok (.ok (.mainnet, app.serviceAt sampleConfig .mainnet)) := by
  obtain ⟨w, hw⟩ := Option.isSome_iff_exists.mp h
  simp [App.resolve, sampleRequest, bidirectionalEnvironments, Environment.name,
    App.serviceAt, App.getService, hw, sampleConfig, Env.ethereumRpcUrl, Except.map]

/-- The address holds nothing, so the job ends before its minute is over. -/
def limitedRun : List AppAction :=
  mainnetRun ++
    ([.resume 0 .resume, .resume 0 (.balance 0)] : List Action).map (.service .mainnet)

def limitedApp : App := (exec (step sampleConfig) (App.new 0) limitedRun).getD (App.new 0)

theorem exec_limitedRun :
    exec (step sampleConfig) (App.new 0) limitedRun = some limitedApp :=
  exec_getD (by decide +kernel) _

/-- While mainnet's one job is active the next request is refused, and told of twenty; once it
    has ended the limiter refuses, with one request accepted and told of ten. -/
theorem mainnetRun_reports : ReportsLimits sampleConfig mainnetApp sampleRequest ∧
    (mainnetApp.post sampleConfig sampleRequest).2.status = 429 ∧
    ReportsLimits sampleConfig limitedApp sampleRequest ∧
    ∃ w, limitedApp.resolve sampleConfig sampleRequest.env = .ok (.ok (.mainnet, w)) ∧
      (limitedApp.post sampleConfig sampleRequest).2 = .rateLimited 59 10 59000 ∧
      w.acceptedLastMinute = 1 ∧ (10 ≤ w.acceptedLastMinute ↔ 10 ≤ 1) := by
  have hfull := reports_limits (reachable_of_exec exec_mainnetRun) sampleRequest
  have hlimited := reports_limits (reachable_of_exec exec_limitedRun) sampleRequest
  have halong : Along (step sampleConfig) ClockForward (App.new 0) limitedRun := by decide +kernel
  have hresolve : limitedApp.resolve sampleConfig sampleRequest.env =
      .ok (.ok (.mainnet, limitedApp.serviceAt sampleConfig .mainnet)) :=
    resolve_sampleRequest (by decide +kernel)
  have hanswer : (limitedApp.post sampleConfig sampleRequest).2 = .rateLimited 59 10 59000 := by
    decide +kernel
  have hrate := hlimited.2 (.of_exec exec_limitedRun halong) .mainnet _ _ _ _ hresolve hanswer
  refine ⟨hfull.1, by decide +kernel, hlimited.1, _, hresolve, hanswer, by decide +kernel, ?_⟩
  -- the limit in force is read for the second equivalence
  exact hrate.trans ⟨fun himp => himp rfl, fun hle _ => hle⟩

/-- Mainnet's one active job fills it, and the answer says that twenty may be active. -/
theorem refusal_misreports : Reachable (step sampleConfig) (App.new 0) mainnetApp ∧
    ∃ w, mainnetApp.resolve sampleConfig sampleRequest.env = .ok (.ok (.mainnet, w)) ∧
    ∃ seconds body, (mainnetApp.post sampleConfig sampleRequest).2 = .full seconds body ∧
      body.limit = .active ∧ body.activeJobs = 1 ∧ body.maxActiveJobs = 20 ∧
      w.jobs.maxActiveJobs = 1 := by
  refine ⟨reachable_of_exec exec_mainnetRun, mainnetApp.serviceAt sampleConfig .mainnet, ?_, ?_⟩
  · exact resolve_sampleRequest (by decide +kernel)
  · exact ⟨15, ⟨"Too many jobs holding an address", .active, 1, 20, 0, 400, 15000⟩,
      by decide +kernel, rfl, rfl, rfl, by decide +kernel⟩

end App

end ContractPinger
