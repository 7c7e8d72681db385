import ContractPinger.Model.Server
import ContractPinger.Spec.Addresses
import ContractPinger.Spec.ArrivalSlots
import ContractPinger.Spec.Capacity

/-!
# Admission control

`POST /sign_bidirectional` checks the two ceilings of the store, then takes an arrival slot,
then creates the job. Nothing enforces a ceiling anywhere else, so the bounds hold because
the handler does not `await` between check and creation and no step of a job raises what it
checked.

## Key results

- `post_outcome`: a request creates one job and takes one slot, or changes neither
- `Each.step`: a step of the server keeps what the steps of each service keep
- `admission_control`: the bounds in every reachable state, with mainnet's own
-/

namespace ContractPinger

open Machine

namespace World

/-! ## The limiter of a service -/

/-- Put a changed limiter in place. -/
def setLimiter (w : World) (limiter : RateLimiter) : World := { w with limiter }

/-- No step of the service touches its limiter: only the endpoints do. -/
theorem step_limiter {s : Setup} {w w' : World} {a : Action} (hstep : step s w a = some w') :
    w'.limiter = w.limiter := by
  cases a with
  | start mode =>
    cases hstep
    exact start_limiter w s mode
  | getWorkers =>
    cases hstep
    exact ensureAddresses_limiter w s
  | resume job reply =>
    obtain ⟨_, _, _, _, _, rfl⟩ := step_resume hstep
    rw [performAll_limiter]
  | resumeRequest request reply =>
    obtain ⟨_, _, _, _, _, rfl⟩ := step_resumeRequest hstep
    rw [performAll_limiter]
  | resumeDerivation index reply =>
    obtain ⟨_, _, _, rfl, _⟩ := step_resumeDerivation hstep
    rfl
  | expire job =>
    obtain ⟨_, rfl⟩ := step_expire hstep
    rfl
  | respondDeadline job =>
    obtain ⟨_, _, _, rfl⟩ := step_respondDeadline hstep
    rfl
  | abortActiveJobs =>
    cases hstep
    rfl
  | clock now =>
    cases hstep
    rfl

/-- Only accepting a job adds to the accepted ones. -/
theorem step_starts {s : Setup} {w w' : World} {a : Action} (hstep : step s w a = some w')
    (hstart : ∀ mode, a ≠ .start mode) : w'.starts = w.starts := by
  cases step_jobs hstep with
  | accepted mode _ hmode => exact absurd hmode (hstart mode)
  | moved _ _ _ _ _ _ _ _ _ _ _ hstarts => exact hstarts
  | quiet _ _ _ _ hstarts => exact hstarts

/-! ## What bounds a service -/

/-- The bounds of one service, and what they rest on. -/
structure ServiceInv (s : Setup) (w : World) : Prop where
  jobs : w.JobsInv
  leases : w.LeaseInv
  addresses : AddressInv s w
  grants : w.GrantInv
  maxActive : w.jobs.maxActiveJobs = s.maxActiveJobs
  active : w.jobs.activeCount ≤ s.maxActiveJobs
  limit : w.limiter.limit = s.maxRequestsPerMinute
  window : w.limiter.windowMs = 60000

/-- A new service has the limits of its network and no jobs. -/
theorem serviceInv_new (s : Setup) (now : Millis) : ServiceInv s (World.new s now) where
  jobs := jobsInv_new s now
  leases := leaseInv_new s now
  addresses := addressInv_new s now
  grants _ _ h := nomatch h
  maxActive := rfl
  active := Nat.zero_le _
  limit := rfl
  window := rfl

namespace ServiceInv

variable {s : Setup} {w w' : World} {limiter : RateLimiter}

/-- Another limiter with the same limit and window keeps what is known of the service. -/
theorem setLimiter (h : ServiceInv s w) (hlimit : limiter.limit = w.limiter.limit)
    (hwindow : limiter.windowMs = w.limiter.windowMs) : ServiceInv s (w.setLimiter limiter) where
  jobs := h.jobs.quiet rfl rfl (fun _ => rfl) rfl
  leases := ⟨h.leases.wf, h.leases.ledger⟩
  addresses := h.addresses.quiet rfl rfl rfl h.addresses.past h.addresses.pastRequests
  grants := h.grants
  maxActive := h.maxActive
  active := h.active
  limit := hlimit.trans h.limit
  window := hwindow.trans h.window

/-- A step keeps the bounds, as long as a job is accepted only below the active ceiling. -/
theorem step {a : Action} (h : ServiceInv s w) (hadmitted : w.Admitted a)
    (hstep : World.step s w a = some w') : ServiceInv s w' where
  jobs := jobsInv_step h.jobs hstep
  leases := leaseInv_step h.leases hstep
  addresses := addressInv_step h.addresses hstep
  grants := grantInv_step h.leases h.addresses h.grants hstep
  maxActive := (ceilings_step h.jobs hstep).2.trans h.maxActive
  active := by
    by_cases hstart : ∃ mode, a = .start mode
    · -- a job that starts was admitted below the ceiling
      obtain ⟨mode, rfl⟩ := hstart
      have hroom := (below_of_atCapacity (hadmitted mode rfl)).1
      rw [h.maxActive] at hroom
      cases hstep
      have hone := JobStore.create_countP_le s.environment mode w.now h.jobs.ids_concat_nodup
        fun r => r.state.active
      rw [start_jobs]
      exact Nat.le_trans hone hroom
    · -- any other step makes no job active
      have hactive := h.active
      have hle := activeCount_step_le h.jobs hstep fun mode hmode => hstart ⟨mode, hmode⟩
      omega
  limit := by rw [step_limiter hstep, h.limit]
  window := by rw [step_limiter hstep, h.window]

end ServiceInv

/-! ## The handler -/

/-- One job more, and one slot. -/
structure Accepts (s : Setup) (w w' : World) (job : Nat) (mode : TxMode) : Prop where
  /-- The id is new. -/
  fresh : ∀ r ∈ w.jobs.jobs, r.id ≠ job
  jobs : w'.jobs = w.jobs.create job s.environment mode w.now
  pending : w'.jobs.get? job = some (JobStore.newJob job s.environment mode w.now)
  starts : w'.starts = w.starts ++ [(job, w.now)]
  slot : w'.limiter.unexpired w.now = w.limiter.unexpired w.now ++ [w.now]

/-- Neither a job nor a slot. -/
structure Refuses (w w' : World) : Prop where
  jobs : w'.jobs = w.jobs
  starts : w'.starts = w.starts
  slots : w'.limiter.unexpired w.now = w.limiter.unexpired w.now

/-- A freshly accepted job finds its record, whatever `create` pruned. -/
theorem get?_start {s : Setup} {w : World} (h : w.JobsInv) (mode : TxMode) :
    (w.start s mode).jobs.get? w.frames.length =
      some (JobStore.newJob w.frames.length s.environment mode w.now) := by
  have hevolves := h.create_evolves s.environment mode w.now
  have hnd : (w.start s mode).jobs.ids.Nodup :=
    (jobsInv_step (a := .start mode) h rfl).ids_nodup
  have hmem : JobStore.newJob w.frames.length s.environment mode w.now ∈
      (w.start s mode).jobs.jobs := by
    rw [start_jobs]
    -- the new record is live, and `create` prunes finished ones only
    exact hevolves.keeps _ (List.mem_append_right _ (List.mem_singleton_self _)) rfl
  exact JobStore.get?_of_mem hnd hmem

/-- The handler changes the limiter, or changes it and starts an admitted job. -/
theorem handlePost_keeps {I : World → Prop} {s : Setup} {w : World}
    (hlimiter : ∀ w limiter, limiter.limit = w.limiter.limit →
      limiter.windowMs = w.limiter.windowMs → I w → I (w.setLimiter limiter))
    (hstart : ∀ w mode, w.jobs.atCapacity = none → I w → I (w.start s mode))
    (mode : TxMode) (h : I w) : I (w.handlePost s mode).1 := by
  unfold handlePost
  split
  · exact h
  · rename_i hcapacity
    split
    · rename_i limiter htry
      obtain ⟨rfl, _⟩ := RateLimiter.tryAcquire_false htry
      exact hlimiter w _ rfl rfl h
    · rename_i limiter htry
      obtain ⟨rfl, _⟩ := RateLimiter.tryAcquire_true htry
      exact hstart _ mode hcapacity (hlimiter w _ rfl rfl h)

/-- What the handler does to its service, and what it answers. -/
theorem handlePost_outcome {s : Setup} {w : World} (h : ServiceInv s w) (mode : TxMode) :
    (w.handlePost s mode).2 = .accepted w.frames.length .pending mode ∧
        Accepts s w (w.handlePost s mode).1 w.frames.length mode ∨
      (w.handlePost s mode).2.status ≠ 202 ∧ Refuses w (w.handlePost s mode).1 := by
  unfold handlePost
  split
  · -- a ceiling is reached: the limiter is not even asked
    refine .inr ⟨?_, rfl, rfl, rfl⟩
    simp [capacityRefusal, Response.status]
  · split
    · -- no slot is free
      rename_i limiter htry
      obtain ⟨rfl, _⟩ := RateLimiter.tryAcquire_false htry
      refine .inr ⟨by simp [Response.status], rfl, rfl, ?_⟩
      dsimp only
      rw [RateLimiter.retryAfterMs_snd, RateLimiter.prune_unexpired,
        RateLimiter.prune_unexpired]
    · rename_i limiter htry
      -- a slot is taken, and the job is created
      have hslot := RateLimiter.tryAcquire_unexpired (by rw [h.window]; decide) htry
      obtain ⟨rfl, _⟩ := RateLimiter.tryAcquire_true htry
      have hlimited : ServiceInv s (w.setLimiter
          { w.limiter.prune w.now with hits := (w.limiter.prune w.now).hits ++ [w.now] }) :=
        h.setLimiter rfl rfl
      refine .inl ⟨rfl, ?_, ?_, ?_, ?_, ?_⟩
      · intro r hr
        have hlt := h.jobs.id_lt hr
        omega
      · exact start_jobs _ s mode
      · exact get?_start hlimited.jobs mode
      · exact start_starts _ s mode
      · dsimp only
        rw [start_limiter]
        exact hslot

end World

namespace App

/-! ## The server -/

/-- Every service has the property. -/
def Each (I : Setup → World → Prop) (c : Config) (app : App) : Prop :=
  ∀ environment w, app.services environment = some w → I (c.setup environment) w

/-- Every service keeps its bounds. -/
def AppInv (c : Config) (app : App) : Prop :=
  ∀ environment w, app.services environment = some w → w.ServiceInv (c.setup environment)

variable {c : Config} {app app' : App}

@[simp] theorem serviceAt_setService (environment : Environment) (w : World) :
    (app.setService environment w).serviceAt c environment = w := by
  simp [App.serviceAt, setService]

/-- Putting one network's service in place leaves the others. -/
theorem serviceAt_setService_ne {environment other : Environment} (hne : other ≠ environment)
    (w : World) : (app.setService environment w).serviceAt c other = app.serviceAt c other := by
  simp [App.serviceAt, setService, hne]

/-- A network that resolves, resolves to its service. -/
theorem resolve_service {network : JsValue} {environment : Environment} {w : World}
    (h : app.resolve c network = .ok (.ok (environment, w))) :
    w = app.serviceAt c environment := by
  unfold resolve at h
  split at h
  · split at h
    · cases h
    · split at h
      · cases h
      · unfold getService at h
        split at h
        · rename_i w' hservice
          cases h
          rw [App.serviceAt, hservice]
          rfl
        · -- the service is built now: as `serviceAt` has it
          cases hclient : c.libs.createPublicClient _ _ <;> rw [hclient] at h <;> cases h
          rfl
  · cases h

namespace Each

variable {I : Setup → World → Prop}

/-- What is known of every service is known of the one a request is given, which may be new. -/
theorem serviceAt (h : Each I c app) (hnew : ∀ s, I s (World.new s app.now))
    (environment : Environment) : I (c.setup environment) (app.serviceAt c environment) := by
  unfold App.serviceAt
  cases hservice : app.services environment with
  | none => exact hnew _
  | some w => exact h environment w hservice

/-- Putting a service in place that has the property keeps it for all. -/
theorem setService (h : Each I c app) {environment : Environment} {w : World}
    (hw : I (c.setup environment) w) : Each I c (app.setService environment w) := by
  intro other w' hw'
  simp only [App.setService] at hw'
  by_cases hother : other = environment
  · subst hother
    rw [Function.update_self] at hw'
    exact Option.some.inj hw' ▸ hw
  · rw [Function.update_of_ne hother] at hw'
    exact h other w' hw'

/-- The inspecting routes keep what their calls keep. -/
theorem inspect (h : Each I c app) (hnew : ∀ s, I s (World.new s app.now)) (query : JsValue)
    {call : Setup → World → World} (hcall : ∀ s w, I s w → I s (call s w)) :
    Each I c (app.inspect c query call) := by
  unfold App.inspect
  split
  · rename_i environment w hresolve
    have hw := resolve_service hresolve
    subst hw
    exact h.setService (hcall _ _ (h.serviceAt hnew environment))
  · exact h

/-- A step of the server keeps what each service's own steps and admitted starts keep. -/
theorem step (h : Each I c app) (hnew : ∀ s now, I s (World.new s now))
    (hlimiter : ∀ s w limiter, limiter.limit = w.limiter.limit →
      limiter.windowMs = w.limiter.windowMs → I s w → I s (w.setLimiter limiter))
    (hkeep : ∀ s w a w', w.Admitted a → I s w → World.step s w a = some w' → I s w')
    {a : AppAction} (hstep : App.step c app a = some app') : Each I c app' := by
  -- an action that accepts no job is admitted anyway
  have hquiet : ∀ {s w a w'}, (∀ mode, a ≠ .start mode) → I s w →
      World.step s w a = some w' → I s w' :=
    fun ha => hkeep _ _ _ _ fun mode hmode => absurd hmode (ha mode)
  have hnow := fun s => hnew s app.now
  cases a with
  | post request =>
    cases hstep
    unfold post
    split
    · exact h
    · split
      · exact h
      · split
        · exact h
        · exact h
        · rename_i mode _ _ environment w hresolve
          have hw := resolve_service hresolve
          subst hw
          refine h.setService (World.handlePost_keeps (fun w limiter => hlimiter _ w limiter) ?_
            mode (h.serviceAt hnow environment))
          exact fun w mode hcapacity hI => hkeep _ w (.start mode) _ (fun _ _ => hcapacity) hI rfl
  | getWorkers query =>
    cases hstep
    exact h.inspect hnow query fun s w hI => hquiet (a := .getWorkers) (by simp) hI rfl
  | getStats query =>
    cases hstep
    exact h.inspect hnow query fun s w hI => hlimiter s w _ rfl rfl hI
  | service environment action =>
    simp only [App.step] at hstep
    split at hstep
    · rename_i hresumes
      simp only [Option.bind_eq_some_iff, Option.map_eq_some_iff] at hstep
      obtain ⟨w, hw, w', hstep, rfl⟩ := hstep
      refine h.setService (hquiet ?_ (h environment w hw) hstep)
      rintro mode rfl
      -- what resumes by itself is no `start`
      cases hresumes
    · cases hstep
  | abortActiveJobs =>
    cases hstep
    intro environment w' hw'
    obtain ⟨w, hw, rfl⟩ := Option.map_eq_some_iff.mp hw'
    exact hquiet (a := .abortActiveJobs) (by simp) (h environment w hw) rfl
  | clock now =>
    cases hstep
    intro environment w' hw'
    obtain ⟨w, hw, rfl⟩ := Option.map_eq_some_iff.mp hw'
    exact hquiet (a := .clock now) (by simp) (h environment w hw) rfl

end Each

/-- Every step of the server keeps the bounds of its services. -/
theorem appInv_step {a : AppAction} (h : AppInv c app) (hstep : step c app a = some app') :
    AppInv c app' :=
  Each.step h World.serviceInv_new (fun _ _ _ hlimit hwindow hw => hw.setLimiter hlimit hwindow)
    (fun _ _ _ _ hadmitted hw => hw.step hadmitted) hstep

/-- Every service of a reachable server has its invariant. -/
theorem appInv_reachable {start : Millis} (h : Reachable (step c) (App.new start) app) :
    AppInv c app :=
  h.invariant (fun _ _ hw => nomatch hw) fun _ _ _ hinv _ hstep => appInv_step hinv hstep

/-- And so has the one a request is given. -/
theorem AppInv.serviceAt (h : AppInv c app) (environment : Environment) :
    (app.serviceAt c environment).ServiceInv (c.setup environment) :=
  Each.serviceAt h (fun s => World.serviceInv_new s app.now) environment

/-! ## A request -/

/-- The job and the slot of an accepted request, with every other service as it was. -/
structure Accepts (c : Config) (app app' : App) (environment : Environment) (job : Nat)
    (mode : TxMode) : Prop where
  service : (app.serviceAt c environment).Accepts (c.setup environment)
    (app'.serviceAt c environment) job mode
  others : ∀ other, other ≠ environment → app'.services other = app.services other

/-- No store and no slot has changed. -/
def Refuses (c : Config) (app app' : App) : Prop :=
  ∀ environment, (app.serviceAt c environment).Refuses (app'.serviceAt c environment)

/-- Where nothing changed, nothing was accepted. -/
theorem Refuses.refl (c : Config) (app : App) : Refuses c app app := fun _ => ⟨rfl, rfl, rfl⟩

/-- How a request can end. -/
inductive Outcome (c : Config) (app : App) : App × Response → Prop
  | accepted (app' : App) (environment : Environment) (job : Nat) (mode : TxMode) :
      Accepts c app app' environment job mode →
      Outcome c app (app', .accepted job .pending mode)
  | refused (app' : App) (response : Response) : response.status ≠ 202 → Refuses c app app' →
      Outcome c app (app', response)

/-- A request creates one job and takes one slot, or changes neither. -/
theorem post_outcome (h : AppInv c app) (request : PostRequest) :
    Outcome c app (app.post c request) := by
  have hrefused : ∀ response : Response, response.status ≠ 202 → Outcome c app (app, response) :=
    fun response hstatus => .refused app response hstatus (.refl c app)
  unfold post
  split
  · exact hrefused _ (by simp [Response.status])
  · split
    · -- a mode that `isTxMode` refuses, however it is rendered
      refine hrefused _ ?_
      cases request.mode with
      | other rendered =>
        cases rendered <;> simp [invalidMode, invalidMode.invalid, Response.status]
      | _ => simp [invalidMode, invalidMode.invalid, Response.status]
    · rename_i mode _
      split
      · exact hrefused _ (by simp [Response.status])
      · exact hrefused _ (by simp [Response.status])
      · rename_i environment w hresolve
        have hw := resolve_service hresolve
        subst hw
        dsimp only
        rcases World.handlePost_outcome (h.serviceAt environment) mode with
          ⟨hresponse, haccepts⟩ | ⟨hstatus, hrefuses⟩
        · rw [hresponse]
          refine .accepted _ environment _ mode ⟨?_, fun other hne => ?_⟩
          · rw [serviceAt_setService]
            exact haccepts
          · simp [setService, hne]
        · refine .refused _ _ hstatus fun other => ?_
          -- the network that was asked for, and the others
          by_cases hother : other = environment
          · subst hother
            rw [serviceAt_setService]
            exact hrefuses
          · rw [serviceAt_setService_ne hother]
            exact ⟨rfl, rfl, rfl⟩

/-! ## A clock that does not go back -/

/-- The step does not turn the clock back. -/
def ClockForward (app : App) (a : AppAction) : Prop := ∀ now, a = .clock now → app.now ≤ now

instance (app : App) (a : AppAction) : Decidable (app.ClockForward a) :=
  match a with
  | .clock now => decidable_of_iff (app.now ≤ now) ⟨fun h _ hnow => by cases hnow; exact h,
      fun h => h now rfl⟩
  | .post _ | .getWorkers _ | .getStats _ | .service _ _ | .abortActiveJobs => isTrue nofun

/-- Every service reads the same clock, and its limiter remembers what it let pass. -/
def SlotsInv (app : App) : Prop :=
  ∀ environment w, app.services environment = some w →
    w.now = app.now ∧ w.limiter.Remembers (w.starts.map Prod.snd) w.now

/-- What `SlotsInv` says of each service. -/
private theorem SlotsInv.each (h : SlotsInv app) (c : Config) :
    Each (fun _ w => w.now = app.now ∧ w.limiter.Remembers (w.starts.map Prod.snd) w.now) c app :=
  h

/-- A new limiter remembers the empty history. -/
private theorem slots_new (s : Setup) (now : Millis) : (World.new s now).now = now ∧
    (World.new s now).limiter.Remembers ((World.new s now).starts.map Prod.snd)
      (World.new s now).now :=
  ⟨rfl, RateLimiter.remembers_new (by decide) now⟩

/-- What `SlotsInv` says of the service a request is given. -/
theorem SlotsInv.serviceAt (h : SlotsInv app) (c : Config) (environment : Environment) :
    (app.serviceAt c environment).now = app.now ∧
      (app.serviceAt c environment).limiter.Remembers
        ((app.serviceAt c environment).starts.map Prod.snd)
        (app.serviceAt c environment).now :=
  (h.each c).serviceAt (fun s => slots_new s app.now) environment

/-- The handler takes a slot for the job it creates, and none else. -/
theorem handlePost_remembers (s : Setup) {w : World} (mode : TxMode)
    (h : w.limiter.Remembers (w.starts.map Prod.snd) w.now) :
    (w.handlePost s mode).1.now = w.now ∧
      (w.handlePost s mode).1.limiter.Remembers ((w.handlePost s mode).1.starts.map Prod.snd)
        (w.handlePost s mode).1.now := by
  unfold World.handlePost
  split
  · exact ⟨rfl, h⟩
  · split
    · rename_i limiter htry
      obtain ⟨rfl, _⟩ := RateLimiter.tryAcquire_false htry
      -- the refusal asks the limiter twice, which only prunes it
      exact ⟨rfl, h.prune.prune⟩
    · rename_i limiter htry
      dsimp only
      refine ⟨World.start_now _ s mode, ?_⟩
      rw [World.start_limiter, World.start_starts, World.start_now, List.map_append]
      exact h.tryAcquire htry

/-- The inspecting routes leave the clock. -/
theorem inspect_now (query : JsValue) (call : Setup → World → World) :
    (app.inspect c query call).now = app.now := by
  unfold App.inspect
  split <;> rfl

/-- They keep the limiters' memory, if their call on the service does. -/
theorem SlotsInv.inspect (h : SlotsInv app) (query : JsValue) {call : Setup → World → World}
    (hcall : ∀ s w, w.now = app.now ∧ w.limiter.Remembers (w.starts.map Prod.snd) w.now →
      (call s w).now = app.now ∧
        (call s w).limiter.Remembers ((call s w).starts.map Prod.snd) (call s w).now) :
    SlotsInv (app.inspect c query call) := by
  intro environment w hw
  rw [inspect_now]
  exact (h.each c).inspect (fun s => slots_new s app.now) query hcall environment w hw

/-- While the clock does not go back, every limiter remembers what it let pass. -/
theorem slotsInv_step {a : AppAction} (h : SlotsInv app) (hclock : app.ClockForward a)
    (hstep : step c app a = some app') : SlotsInv app' := by
  cases a with
  | post request =>
    cases hstep
    unfold post
    split
    · exact h
    · split
      · exact h
      · split
        · exact h
        · exact h
        · rename_i mode _ _ environment w hresolve
          have hw := resolve_service hresolve
          subst hw
          obtain ⟨hnow, hremembers⟩ := h.serviceAt c environment
          obtain ⟨hnow', hremembers'⟩ :=
            handlePost_remembers (c.setup environment) mode hremembers
          exact (h.each c).setService ⟨hnow'.trans hnow, hremembers'⟩
  | getWorkers query =>
    cases hstep
    refine h.inspect query fun s w hw => ?_
    have hstep : World.step s w .getWorkers = some (w.getWorkers s) := rfl
    have hnow := World.step_now (a := .getWorkers) (by simp) hstep
    rw [hnow, World.step_limiter hstep, World.step_starts hstep (by simp)]
    exact hw
  | getStats query =>
    cases hstep
    exact h.inspect query fun s w hw => ⟨hw.1, hw.2.prune.prune⟩
  | service environment action =>
    simp only [step] at hstep
    split at hstep
    · rename_i hresumes
      simp only [Option.bind_eq_some_iff, Option.map_eq_some_iff] at hstep
      obtain ⟨w, hw, w', hstep, rfl⟩ := hstep
      obtain ⟨hnow, hremembers⟩ := h environment w hw
      have hnow' : w'.now = w.now := by
        refine World.step_now ?_ hstep
        rintro now rfl
        cases hresumes
      refine (h.each c).setService ⟨hnow'.trans hnow, ?_⟩
      rw [World.step_limiter hstep, World.step_starts hstep, hnow']
      · exact hremembers
      · rintro mode rfl
        cases hresumes
    · cases hstep
  | abortActiveJobs =>
    cases hstep
    intro environment w' hw'
    obtain ⟨w, hw, rfl⟩ := Option.map_eq_some_iff.mp hw'
    have hstep : World.step (c.setup environment) w .abortActiveJobs =
        some w.abortActiveJobs := rfl
    obtain ⟨hnow, hremembers⟩ := h environment w hw
    rw [World.step_now (a := .abortActiveJobs) (by simp) hstep, World.step_limiter hstep,
      World.step_starts hstep (by simp)]
    exact ⟨hnow, hremembers⟩
  | clock now =>
    cases hstep
    intro environment w' hw'
    obtain ⟨w, hw, rfl⟩ := Option.map_eq_some_iff.mp hw'
    obtain ⟨hnow, hremembers⟩ := h environment w hw
    refine ⟨rfl, hremembers.later ?_⟩
    rw [hnow]
    -- the guard: the clock does not go back
    exact hclock now rfl

/-- While the clock does not go back, the limiters remember what they let pass. -/
theorem slotsInv_reachable {start : Millis}
    (h : ReachableUnder (step c) ClockForward (App.new start) app) : SlotsInv app :=
  h.invariant (fun _ _ hw => nomatch hw) fun _ _ _ hinv hclock hstep =>
    slotsInv_step hinv hclock hstep

/-- In every window of a minute a service accepts at most as many jobs as its limit. -/
theorem accepted_per_window {start : Millis}
    (h : ReachableUnder (step c) ClockForward (App.new start) app) {environment : Environment}
    {w : World} (hw : app.services environment = some w) (x : Millis) :
    w.starts.countP (fun job => decide (x < job.2 ∧ job.2 ≤ x + 60000)) ≤
      (c.setup environment).maxRequestsPerMinute := by
  have hinv := appInv_reachable h.reachable environment w hw
  have hbound := (slotsInv_reachable h environment w hw).2.bounded x
  rw [hinv.window, hinv.limit, List.countP_map] at hbound
  exact hbound

/-! ## What the endpoint guarantees -/

/-- What admission guarantees in a state of the server. -/
structure AdmissionControlled (c : Config) (app : App) : Prop where
  /-- A request creates one job and takes one slot, or is refused and changes neither. -/
  outcome : ∀ request, Outcome c app (app.post c request)
  active : ∀ environment w, app.services environment = some w →
    w.jobs.activeCount ≤ (c.setup environment).maxActiveJobs
  mainnet_active : ∀ w, app.services .mainnet = some w → w.jobs.activeCount ≤ 1
  /-- One path is leased on mainnet, and by then its address is derived for good. -/
  mainnet_address : ∀ w, app.services .mainnet = some w → ∀ call path,
    (call, .resolved path) ∈ w.pool.settled →
      path = c.env.bidirectional.pathPrefix ++ "-0" ∧
      ∃ solana, (c.setup .mainnet).solana = .ok solana ∧
        w.pool.address path = (deriveWorker c.libs solana path).address

/-- Admission is controlled in every reachable state; and while the clock does not go back,
    mainnet accepts at most one job in any window of a minute. -/
theorem admission_control {start : Millis} (h : Reachable (step c) (App.new start) app) :
    AdmissionControlled c app ∧
      (ReachableUnder (step c) ClockForward (App.new start) app →
        ∀ w, app.services .mainnet = some w → ∀ x,
          w.starts.countP (fun job => decide (x < job.2 ∧ job.2 ≤ x + 60000)) ≤ 1) := by
  have hinv := appInv_reachable h
  refine ⟨⟨post_outcome hinv, ?_, ?_, ?_⟩, ?_⟩
  · exact fun environment w hw => (hinv environment w hw).active
  · exact fun w hw => (hinv .mainnet w hw).active
  · intro w hw call path hgrant
    have hservice := hinv .mainnet w hw
    obtain ⟨hpath, hfulfilled⟩ := hservice.grants call path hgrant
    refine ⟨?_, (hservice.addresses.fulfilled hfulfilled).address hpath⟩
    -- the constructor builds one path for mainnet
    rw [hservice.addresses.paths] at hpath
    have hone : path = c.env.bidirectional.pathPrefix ++ "-" ++ Nat.repr 0 := by
      simpa [Setup.paths, Config.setup, buildPaths] using hpath
    have hzero : "-" ++ Nat.repr 0 = "-0" := by decide
    rw [hone, String.append_assoc, hzero]
  · exact fun hforward w hw x => accepted_per_window hforward hw x

/-! ## Two requests to mainnet -/

/-- A server for mainnet. -/
def sampleConfig : Config where
  env :=
    { apiSecret := some "secret"
      ethRpcUrlMainnet := "http://localhost:8545"
      solRpcUrlMainnet := "http://localhost:8899"
      solSk := "[1]" }
  libs := World.sampleSetup.libs

/-- A request to it. -/
def sampleRequest : PostRequest :=
  { header := some "secret", env := .string "mainnet" }

/-- The first request is accepted, and its job leases the one address. -/
def mainnetRun : List AppAction :=
  [.post sampleRequest, .clock 1000, .post sampleRequest] ++
    ([.resumeDerivation 0 .resume, .resumeDerivation 0 .resume, .resume 0 .resume,
      .resume 0 .resume, .resume 0 .resume] : List Action).map (.service .mainnet)

/-- The state that run ends in. -/
def mainnetApp : App := (exec (step sampleConfig) (App.new 0) mainnetRun).getD (App.new 0)

theorem exec_mainnetRun :
    exec (step sampleConfig) (App.new 0) mainnetRun = some mainnetApp :=
  exec_getD (by decide +kernel) _

/-- The clock goes forward in that run. -/
theorem mainnetApp_forward :
    ReachableUnder (step sampleConfig) ClockForward (App.new 0) mainnetApp := by
  have halong : Along (step sampleConfig) ClockForward (App.new 0) mainnetRun := by decide +kernel
  exact .of_exec exec_mainnetRun halong

/-- Two requests in one second: one job, granted the one address, and no window of a minute holds
    another. -/
theorem mainnetRun_admission : AdmissionControlled sampleConfig mainnetApp ∧
    ∃ w, mainnetApp.services .mainnet = some w ∧ w.pool.settled = [(0, .resolved "load-0")] ∧
      ∀ x, w.starts.countP (fun job => decide (x < job.2 ∧ job.2 ≤ x + 60000)) ≤ 1 := by
  obtain ⟨hadmission, hwindow⟩ := admission_control (reachable_of_exec exec_mainnetRun)
  have hw : mainnetApp.services .mainnet = some _ :=
    (Option.some_get (by decide +kernel)).symm
  exact ⟨hadmission, _, hw, by decide +kernel, hwindow mainnetApp_forward _ hw⟩

end App

end ContractPinger
