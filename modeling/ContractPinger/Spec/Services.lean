import ContractPinger.Spec.Admission
import ContractPinger.Spec.Drain

/-!
# The server as its services

The server keeps one service for each network, and the handlers reach a service only
through the network that was asked for. So a service on the server runs as it would by
itself, jobs being admitted and its limiter being used by the endpoints, and what holds of
a service by itself holds on the server.

## Key results

- `step_service`: what a step of the server is to one of its services
- `service_refines`: a service on the server is in a state its own machine reaches
- `Hosts.step`: what the steps of a service keep, the server keeps
- `server_comes_to_rest`: a server without arrivals comes to rest
-/

namespace ContractPinger

open Machine

namespace World

/-! ## The limiter is on the side -/

/-- Starting a job does not look at the limiter. -/
theorem setLimiter_start (w : World) (s : Setup) (mode : TxMode) (limiter : RateLimiter) :
    (w.setLimiter limiter).start s mode = (w.start s mode).setLimiter limiter := by
  unfold World.start World.ensureAddresses
  cases hsolana : s.solana with
  | error e => rfl
  | ok solana =>
    cases hready : w.addressesReady with
    | none => simp [setLimiter, hready]
    | some d => simp [setLimiter, hready]

/-- Nor does a request for the workers. -/
theorem setLimiter_getWorkers (w : World) (s : Setup) (limiter : RateLimiter) :
    (w.setLimiter limiter).getWorkers s = (w.getWorkers s).setLimiter limiter := by
  unfold World.getWorkers World.ensureAddresses
  cases hready : w.addressesReady with
  | none => simp [setLimiter, hready]
  | some d => simp [setLimiter, hready]

/-- Nor do the calls of `run()`. -/
theorem setLimiter_performAll (w : World) (who : Proc) (effects : List Effect)
    (limiter : RateLimiter) :
    (w.setLimiter limiter).performAll who effects =
      (w.performAll who effects).setLimiter limiter := by
  induction effects generalizing w with
  | nil => rfl
  | cons effect rest ih =>
    rw [performAll_cons, performAll_cons, ← ih]
    rfl

/-- Nor do derivations. -/
theorem setLimiter_resumeDerivation (w : World) (s : Setup) (index : Nat) (d : Derivation)
    (reply : Reply) (limiter : RateLimiter) :
    (w.setLimiter limiter).resumeDerivation s index d reply =
      (w.resumeDerivation s index d reply).map fun w' => w'.setLimiter limiter := by
  fun_cases World.resumeDerivation w s index d reply <;>
    simp [World.resumeDerivation, setLimiter, *]

/-- No step of a service reads its limiter. -/
theorem step_setLimiter (s : Setup) (w : World) (a : Action) (limiter : RateLimiter) :
    step s (w.setLimiter limiter) a = (step s w a).map fun w' => w'.setLimiter limiter := by
  cases a with
  | start mode => exact congrArg some (setLimiter_start w s mode limiter)
  | getWorkers => exact congrArg some (setLimiter_getWorkers w s limiter)
  | resume job reply =>
    -- a job sees nothing of the limiter, so both sides resume the same frame
    show (w.frames[job]?.bind fun f => (f.resume s w.view job reply).map fun next =>
      performAll (World.setLimiter { w with frames := w.frames.set job next.1 } limiter)
        (.job job) next.2) = _
    simp only [step, setLimiter_performAll]
    cases w.frames[job]? with
    | none => rfl
    | some f =>
      simp only [Option.bind_some, Option.map_map]
      rfl
  | resumeRequest request reply =>
    show (w.requests[request]?.bind fun pc => (w.resumeRequest s pc reply).map fun next =>
      performAll (World.setLimiter { w with requests := w.requests.set request next.1 } limiter)
        (.request request) next.2) = _
    simp only [step, setLimiter_performAll]
    cases w.requests[request]? with
    | none => rfl
    | some pc =>
      simp only [Option.bind_some, Option.map_map]
      rfl
  | resumeDerivation index reply =>
    show (w.derivations[index]?.bind fun d =>
      (w.setLimiter limiter).resumeDerivation s index d reply) = _
    simp only [step, setLimiter_resumeDerivation]
    cases w.derivations[index]? <;> rfl
  | expire job =>
    show (if job ∈ w.pool.timers then _ else none) = _
    simp only [step]
    split <;> rfl
  | respondDeadline job =>
    show (w.frames[job]?.bind fun f => if f.respondDeadline then _ else none) = _
    simp only [step]
    cases w.frames[job]? with
    | none => rfl
    | some f =>
      simp only [Option.bind_some]
      split <;> rfl
  | abortActiveJobs => rfl
  | clock now => rfl

/-! ## A service by itself -/

/-- The service is, its limiter apart, in a state its own machine reaches by steps that meet
    the guard. -/
def ByItself (s : Setup) (guard : World → Action → Prop) (w : World) : Prop :=
  ∃ start v, ReachableUnder (step s) guard (World.new s start) v ∧ w = v.setLimiter w.limiter

namespace ByItself

variable {s : Setup} {guard : World → Action → Prop} {w w' : World}

/-- A new service has taken no step. -/
theorem new (s : Setup) (guard : World → Action → Prop) (now : Millis) :
    ByItself s guard (World.new s now) :=
  ⟨now, World.new s now, .refl, rfl⟩

/-- The limiter is set apart. -/
theorem setLimiter (h : ByItself s guard w) (limiter : RateLimiter) :
    ByItself s guard (w.setLimiter limiter) := by
  obtain ⟨start, v, hv, heq⟩ := h
  refine ⟨start, v, hv, ?_⟩
  rw [heq]
  rfl

/-- A step of the service on the server is one of the service by itself. -/
theorem step (h : ByItself s guard w) {a : Action}
    (hguard : ∀ v, w = v.setLimiter w.limiter → guard v a) (hstep : World.step s w a = some w') :
    ByItself s guard w' := by
  obtain ⟨start, v, hv, heq⟩ := h
  rw [heq, step_setLimiter, Option.map_eq_some_iff] at hstep
  obtain ⟨v', hstep, rfl⟩ := hstep
  exact ⟨start, v', .tail a hv (hguard v heq) hstep, rfl⟩

end ByItself

end World

/-- A service goes on by itself. -/
def AppAction.goesOn : AppAction → Prop
  | .service _ _ => True
  | _ => False

namespace App

variable {c : Config} {app app' : App}

/-! ## What a step of the server is to a service -/

/-- What a step of the server makes of a service, or of the one `getService` would build. -/
inductive ServiceStep (s : Setup) (a : AppAction) (w w' : World) : Prop
  | stays (eq : w' = w) (timeless : ∀ now, a ≠ .clock now)
  /-- The endpoints use the limiter. -/
  | limited (limiter : RateLimiter) (eq : w' = w.setLimiter limiter)
      (timeless : ∀ now, a ≠ .clock now)
  /-- A job is accepted: the ceilings have room, and a slot is taken. -/
  | accepted (request : PostRequest) (isPost : a = .post request) (limiter : RateLimiter)
      (mode : TxMode) (room : w.jobs.atCapacity = none)
      (eq : w' = (w.setLimiter limiter).start s mode)
  /-- A step of the service's own, which accepts no job. -/
  | goesOn (action : Action) (step : World.step s w action = some w')
      (noStart : ∀ mode, action ≠ .start mode) (time : ∀ now, action = .clock now ↔ a = .clock now)

/-- The handler uses the limiter, and accepts a job or does not. -/
theorem handlePost_step (s : Setup) (w : World) (mode : TxMode) (request : PostRequest) :
    ServiceStep s (.post request) w (w.handlePost s mode).1 := by
  unfold World.handlePost
  split
  · exact .stays rfl (by simp)
  · rename_i hroom
    split
    · exact .limited _ rfl (by simp)
    · rename_i limiter _
      exact .accepted request rfl limiter mode hroom rfl

/-- Where there is a service it is the one a request is given. -/
theorem serviceAt_of_services {environment : Environment} {w : World}
    (hw : app.services environment = some w) : app.serviceAt c environment = w := by
  rw [App.serviceAt, hw]
  rfl

/-- What any step of the server is to one of its services. -/
theorem step_service {a : AppAction} (hstep : step c app a = some app') {environment : Environment}
    {w' : World} (hw' : app'.services environment = some w') :
    ServiceStep (c.setup environment) a (app.serviceAt c environment) w' := by
  -- a service that was not asked for stays as it is
  have hsame : (∀ now, a ≠ .clock now) → app.services environment = some w' →
      ServiceStep (c.setup environment) a (app.serviceAt c environment) w' :=
    fun htimeless hw => .stays (serviceAt_of_services hw).symm htimeless
  have hset : ∀ (other : Environment) (w : World), (∀ now, a ≠ .clock now) →
      (other = environment → ServiceStep (c.setup environment) a
        (app.serviceAt c environment) w) →
      (app.setService other w).services environment = some w' →
      ServiceStep (c.setup environment) a (app.serviceAt c environment) w' := by
    intro other w htimeless hasked hw
    simp only [App.setService] at hw
    by_cases hother : environment = other
    · subst hother
      rw [Function.update_self] at hw
      exact Option.some.inj hw ▸ hasked rfl
    · rw [Function.update_of_ne hother] at hw
      exact hsame htimeless hw
  cases a with
  | post request =>
    cases hstep
    unfold post at hw'
    split at hw'
    · exact hsame (by simp) hw'
    · split at hw'
      · exact hsame (by simp) hw'
      · split at hw'
        · exact hsame (by simp) hw'
        · exact hsame (by simp) hw'
        · rename_i mode _ _ other w hresolve
          have hw := resolve_service hresolve
          subst hw
          refine hset other _ (by simp) ?_ hw'
          rintro rfl
          exact handlePost_step _ _ mode request
  | getWorkers query =>
    cases hstep
    unfold App.inspect at hw'
    split at hw'
    · rename_i other w hresolve
      have hw := resolve_service hresolve
      subst hw
      refine hset other _ (by simp) ?_ hw'
      rintro rfl
      exact .goesOn .getWorkers rfl (by simp) (by simp)
    · exact hsame (by simp) hw'
  | getStats query =>
    cases hstep
    unfold App.inspect at hw'
    split at hw'
    · rename_i other w hresolve
      have hw := resolve_service hresolve
      subst hw
      refine hset other _ (by simp) ?_ hw'
      rintro rfl
      exact .limited _ rfl (by simp)
    · exact hsame (by simp) hw'
  | service other action =>
    simp only [App.step] at hstep
    split at hstep
    · rename_i hresumes
      simp only [Option.bind_eq_some_iff, Option.map_eq_some_iff] at hstep
      obtain ⟨w, hw, w₁, hstep, rfl⟩ := hstep
      refine hset other w₁ (by simp) ?_ hw'
      rintro rfl
      rw [serviceAt_of_services hw]
      -- what goes on by itself is no arrival and no clock
      refine .goesOn action hstep ?_ fun now => iff_of_false ?_ (by simp)
      · rintro mode rfl
        cases hresumes
      · rintro rfl
        cases hresumes
    · cases hstep
  | abortActiveJobs =>
    cases hstep
    obtain ⟨w, hw, rfl⟩ := Option.map_eq_some_iff.mp hw'
    rw [serviceAt_of_services hw]
    exact .goesOn .abortActiveJobs rfl (by simp) (by simp)
  | clock now =>
    cases hstep
    obtain ⟨w, hw, rfl⟩ := Option.map_eq_some_iff.mp hw'
    rw [serviceAt_of_services hw]
    exact .goesOn (.clock now) rfl (by simp) (by simp)

/-- Only the clock changes the clock. -/
theorem step_appNow {a : AppAction} (hstep : step c app a = some app')
    (htimeless : ∀ now, a ≠ .clock now) : app'.now = app.now := by
  cases a with
  | post request =>
    cases hstep
    -- whatever it is answered, the clock is not moved
    unfold post
    split
    · rfl
    · split
      · rfl
      · split <;> rfl
  | getWorkers query =>
    cases hstep
    exact inspect_now query _
  | getStats query =>
    cases hstep
    exact inspect_now query _
  | service other action =>
    simp only [App.step] at hstep
    split at hstep
    · simp only [Option.bind_eq_some_iff, Option.map_eq_some_iff] at hstep
      obtain ⟨_, _, _, _, rfl⟩ := hstep
      rfl
    · cases hstep
  | abortActiveJobs =>
    cases hstep
    rfl
  | clock now => exact absurd rfl (htimeless now)

/-- Every service reads the server's clock and is in a state its own machine reaches. -/
def Refines (c : Config) (guard : World → Action → Prop) (app : App) : Prop :=
  ∀ environment w, app.services environment = some w →
    w.now = app.now ∧ World.ByItself (c.setup environment) guard w

section Refinement

variable {guard : World → Action → Prop}

/-- What is known of the services is known of the one a request is given. -/
theorem Refines.serviceAt (h : Refines c guard app) (environment : Environment) :
    (app.serviceAt c environment).now = app.now ∧
      World.ByItself (c.setup environment) guard (app.serviceAt c environment) := by
  cases hw : app.services environment with
  | some w =>
    rw [serviceAt_of_services hw]
    exact h environment w hw
  | none =>
    rw [App.serviceAt, hw]
    exact ⟨rfl, .new _ _ _⟩

/-- A step of the server is, to each service, a step its guard lets pass, or a use of the
    limiter before it. -/
theorem refines_step {a : AppAction} (h : Refines c guard app)
    (hquiet : ∀ w action, w.Admitted action → (∀ now, action ≠ .clock now) → guard w action)
    (hclock : ∀ w now, a = .clock now → w.now = app.now → guard w (.clock now))
    (hstep : step c app a = some app') : Refines c guard app' := by
  intro environment w' hw'
  obtain ⟨hnow, hitself⟩ := h.serviceAt environment
  cases step_service hstep hw' with
  | stays heq htimeless =>
    rw [heq, step_appNow hstep htimeless]
    exact ⟨hnow, hitself⟩
  | limited limiter heq htimeless =>
    rw [heq, step_appNow hstep htimeless]
    exact ⟨hnow, hitself.setLimiter limiter⟩
  | accepted request hpost limiter mode hroom heq =>
    rw [step_appNow hstep (by simp [hpost]), heq, World.start_now]
    refine ⟨hnow, (hitself.setLimiter limiter).step (a := .start mode) (fun v hv => ?_) rfl⟩
    refine hquiet v _ (fun _ _ => ?_) (by simp)
    -- the ceilings do not depend on the limiter
    have hjobs := congrArg World.jobs hv
    show v.jobs.atCapacity = none
    exact hjobs ▸ hroom
  | goesOn action hservice hstart htime =>
    refine ⟨?_, hitself.step (fun v hv => ?_) hservice⟩
    · by_cases hclocked : ∃ now, action = .clock now
      · obtain ⟨now, rfl⟩ := hclocked
        obtain rfl := (htime now).mp rfl
        cases hstep
        cases hservice
        rfl
      · rw [World.step_now (fun now hnow => hclocked ⟨now, hnow⟩) hservice, hnow]
        exact (step_appNow hstep fun now hnow => hclocked ⟨now, (htime now).mpr hnow⟩).symm
    · by_cases hclocked : ∃ now, action = .clock now
      · obtain ⟨now, rfl⟩ := hclocked
        have hsame := congrArg World.now hv
        exact hclock v now ((htime now).mp rfl) (hsame.symm.trans hnow)
      · exact hquiet v action (fun mode hmode => absurd hmode (hstart mode))
          fun now hnow => hclocked ⟨now, hnow⟩

end Refinement

/-- A service on the server, with jobs admitted below the ceilings. -/
theorem service_byItself {start : Millis} (h : Reachable (step c) (App.new start) app)
    {environment : Environment} {w : World} (hw : app.services environment = some w) :
    World.ByItself (c.setup environment) World.Admitted w := by
  have hrefines : Refines c World.Admitted app := h.invariant (fun _ _ hnone => nomatch hnone)
    fun _ _ _ hinv _ hstep => refines_step hinv (fun _ _ hadmitted _ => hadmitted)
      (fun _ _ _ _ mode hmode => nomatch hmode) hstep
  exact (hrefines environment w hw).2

/-- A service on the server is, its limiter apart, in a state that its own machine reaches, with
    jobs admitted below the ceilings; and while the server's clock does not go back, with a
    clock that does not. -/
theorem service_refines {start : Millis} (h : Reachable (step c) (App.new start) app)
    {environment : Environment} {w : World} (hw : app.services environment = some w) :
    World.ByItself (c.setup environment) World.Admitted w ∧
      (ReachableUnder (step c) ClockForward (App.new start) app →
        World.ByItself (c.setup environment) (fun w a => w.Admitted a ∧ w.ClockForward a) w) := by
  refine ⟨service_byItself h hw, fun hforward => ?_⟩
  -- the simulation again, with the clock's guard carried along
  have hrefines : Refines c (fun w a => w.Admitted a ∧ w.ClockForward a) app := by
    refine hforward.invariant (fun _ _ hnone => nomatch hnone) fun app a _ hinv hguard hstep => ?_
    refine refines_step hinv ?_ ?_ hstep
    · exact fun w action hadmitted hquiet =>
        ⟨hadmitted, fun now hnow => absurd hnow (hquiet now)⟩
    · intro w now hclock hnow
      refine ⟨fun mode hmode => (nomatch hmode), fun now' hnow' => ?_⟩
      cases hnow'
      rw [hnow]
      exact hguard now hclock
  exact (hrefines environment w hw).2

/-! ## What a service of the server has for good -/

/-- A step of a service on the server is one that resumes something there. -/
theorem step_goesOn {environment : Environment} {action : Action}
    (hstep : step c app (.service environment action) = some app') :
    action.resumes = true ∧ ∃ w w', app.services environment = some w ∧
      World.step (c.setup environment) w action = some w' ∧
      app' = app.setService environment w' := by
  simp only [App.step] at hstep
  split at hstep
  · rename_i hresumes
    simp only [Option.bind_eq_some_iff, Option.map_eq_some_iff] at hstep
    obtain ⟨w, hw, w', hstep, rfl⟩ := hstep
    exact ⟨hresumes, w, w', hw, hstep, rfl⟩
  · cases hstep

/-- The server has a service for the network, and the service the property. -/
def Hosts (app : App) (environment : Environment) (P : World → Prop) : Prop :=
  ∃ w, app.services environment = some w ∧ P w

/-- A service is never dropped. -/
theorem service_kept {a : AppAction} (hstep : step c app a = some app')
    {environment : Environment} (h : (app.services environment).isSome = true) :
    (app'.services environment).isSome = true := by
  -- a service is replaced, never dropped
  have hset : ∀ (other : Environment) (w : World),
      ((app.setService other w).services environment).isSome = true := by
    intro other w
    simp only [App.setService, Function.update_apply]
    split
    · rfl
    · exact h
  cases a with
  | post request =>
    cases hstep
    unfold post
    split
    · exact h
    · split
      · exact h
      · split
        · exact h
        · exact h
        · exact hset _ _
  | getWorkers query =>
    cases hstep
    unfold App.inspect
    split
    · exact hset _ _
    · exact h
  | getStats query =>
    cases hstep
    unfold App.inspect
    split
    · exact hset _ _
    · exact h
  | service other action =>
    obtain ⟨_, _, _, _, _, rfl⟩ := step_goesOn hstep
    exact hset _ _
  | abortActiveJobs =>
    cases hstep
    rwa [Option.isSome_map]
  | clock now =>
    cases hstep
    rwa [Option.isSome_map]

/-- What the steps of a service keep, whatever its limiter, the server keeps. -/
theorem Hosts.step {environment : Environment} {P : World → Prop} (h : app.Hosts environment P)
    (hlimiter : ∀ w limiter, P w → P (w.setLimiter limiter))
    (hkeep : ∀ w a w', P w → World.step (c.setup environment) w a = some w' → P w')
    {a : AppAction} (hstep : App.step c app a = some app') : app'.Hosts environment P := by
  obtain ⟨w, hw, hP⟩ := h
  obtain ⟨w', hw'⟩ := Option.isSome_iff_exists.mp
    (service_kept hstep (Option.isSome_iff_exists.mpr ⟨w, hw⟩))
  have hservice := step_service hstep hw'
  rw [serviceAt_of_services hw] at hservice
  refine ⟨w', hw', ?_⟩
  cases hservice with
  | stays heq _ => exact heq ▸ hP
  | limited limiter heq _ => exact heq ▸ hlimiter w limiter hP
  | accepted request _ limiter mode _ heq =>
    exact heq ▸ hkeep _ (.start mode) _ (hlimiter w limiter hP) rfl
  | goesOn action hstep _ _ => exact hkeep w action w' hP hstep

/-! ## The server without arrivals -/

/-- What the service of a network has yet to do. -/
def load (c : Config) (app : App) (environment : Environment) : Nat :=
  ((app.services environment).map (World.workload (c.setup environment))).getD 0

/-- What the server has yet to do. -/
def workload (c : Config) (app : App) : Nat :=
  app.load c .dev + app.load c .testnet + app.load c .mainnet

/-- Whatever a service does by itself takes from the server's workload. -/
theorem workload_lt {start : Millis} (h : Reachable (step c) (App.new start) app) {a : AppAction}
    (ha : a.goesOn) (hstep : step c app a = some app') : app'.workload c < app.workload c := by
  cases a with
  | service environment action =>
    obtain ⟨hresumes, w, w', hw, hservice, rfl⟩ := step_goesOn hstep
    obtain ⟨now, v, hv, heq⟩ := service_byItself h hw
    rw [heq, World.step_setLimiter, Option.map_eq_some_iff] at hservice
    obtain ⟨v', hservice, rfl⟩ := hservice
    have hless := World.workload_lt hv.reachable hresumes hservice
    -- the limiter has no part in the workload
    have hbefore : app.load c environment = World.workload (c.setup environment) v := by
      rw [load, hw, heq]
      rfl
    have hafter : (app.setService environment (v'.setLimiter w.limiter)).load c environment =
        World.workload (c.setup environment) v' := by
      simp only [load, App.setService, Function.update_self]
      rfl
    have hothers : ∀ other, other ≠ environment →
        (app.setService environment (v'.setLimiter w.limiter)).load c other = app.load c other := by
      intro other hne
      simp only [load, App.setService, Function.update_of_ne hne]
    cases environment with
    | dev =>
      rw [workload, workload, hothers .testnet (by simp), hothers .mainnet (by simp)]
      omega
    | testnet =>
      rw [workload, workload, hothers .dev (by simp), hothers .mainnet (by simp)]
      omega
    | mainnet =>
      rw [workload, workload, hothers .dev (by simp), hothers .testnet (by simp)]
      omega
  | _ => cases ha

/-- Where no service goes on by itself, all are at rest. -/
theorem atRest_of_stuck {start : Millis} (h : Reachable (step c) (App.new start) app)
    (hstuck : Stuck (step c) AppAction.goesOn app) {environment : Environment} {w : World}
    (hw : app.services environment = some w) : w.AtRest := by
  obtain ⟨now, v, hv, heq⟩ := service_byItself h hw
  have hrest : v.AtRest := by
    refine World.atRest_of_stuck hv.reachable fun action hresumes => ?_
    have hnone := hstuck (.service environment action) trivial
    simp only [App.step, if_pos hresumes, hw, Option.bind_some, Option.map_eq_none_iff] at hnone
    rwa [heq, World.step_setLimiter, Option.map_eq_none_iff] at hnone
  rw [heq]
  exact ⟨hrest.jobs, hrest.requests, hrest.derivations, hrest.queue, hrest.leases, hrest.records,
    hrest.counts⟩

/-- A server without arrivals, or one that has been told to shut down, comes to rest: what its
    services do by themselves, interleaved in any order, ends after as many steps as there is
    work, and then nothing is left over on any of them. -/
theorem server_comes_to_rest {start : Millis} (h : Reachable (step c) (App.new start) app) :
    (∃ as app', (∀ a ∈ as, AppAction.goesOn a) ∧ exec (step c) app as = some app' ∧
        ∀ environment w, app'.services environment = some w → w.AtRest) ∧
      ∀ as app', (∀ a ∈ as, AppAction.goesOn a) → exec (step c) app as = some app' →
        as.length ≤ app.workload c ∧ (Stuck (step c) AppAction.goesOn app' →
          ∀ environment w, app'.services environment = some w → w.AtRest) := by
  -- what goes on keeps the server reachable
  have hkeep : ∀ app₁ a app₂, Reachable (step c) (App.new start) app₁ → AppAction.goesOn a →
      step c app₁ a = some app₂ → Reachable (step c) (App.new start) app₂ :=
    fun _ a _ hr _ hstep => .tail a hr trivial hstep
  -- and takes from its workload, which bounds how long it goes on
  have hless : ∀ app₁ a app₂, Reachable (step c) (App.new start) app₁ → AppAction.goesOn a →
      step c app₁ a = some app₂ → app₂.workload c < app₁.workload c :=
    fun _ _ _ hr ha hstep => workload_lt hr ha hstep
  constructor
  · obtain ⟨as, app', has, hexec, hstuck⟩ := exists_exec_stuck hkeep hless h
    exact ⟨as, app', has, hexec, fun _ _ hw =>
      atRest_of_stuck (h.trans (reachable_of_exec hexec)) hstuck hw⟩
  · intro as app' has hexec
    have hlength := length_le_of_decreasing hkeep hless h has hexec
    exact ⟨Nat.le_trans (Nat.le_add_right _ _) hlength, fun hstuck _ _ hw =>
      atRest_of_stuck (h.trans (reachable_of_exec hexec)) hstuck hw⟩

/-- After the two requests to mainnet, one accepted and one refused. -/
theorem mainnetRun_rests : ∃ as app', (∀ a ∈ as, AppAction.goesOn a) ∧
    exec (step sampleConfig) mainnetApp as = some app' ∧
      ∀ environment w, app'.services environment = some w → w.AtRest :=
  (server_comes_to_rest (reachable_of_exec exec_mainnetRun)).1

/-- The service for mainnet, after the two requests. -/
theorem mainnetRun_refines : ∃ w, mainnetApp.services .mainnet = some w ∧
    World.ByItself (sampleConfig.setup .mainnet) World.Admitted w ∧
      World.ByItself (sampleConfig.setup .mainnet)
        (fun w a => w.Admitted a ∧ w.ClockForward a) w := by
  have hw : mainnetApp.services .mainnet = some _ :=
    (Option.some_get (by decide +kernel)).symm
  obtain ⟨hadmitted, hforward⟩ := service_refines (reachable_of_exec exec_mainnetRun) hw
  exact ⟨_, hw, hadmitted, hforward mainnetApp_forward⟩

end App

end ContractPinger
