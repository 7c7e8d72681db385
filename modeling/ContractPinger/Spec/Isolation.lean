import ContractPinger.ForStd.Unwinding
import ContractPinger.Spec.Services

/-!
# Networks do not disturb each other

A request names its network, and a handler touches the service of that network only. So
what is asked of one network, however often and whatever comes of it, shows neither in the
jobs of another nor in the answers its requests get: seen from one network, a run of the
server is the run in which nothing else was ever asked.

## Key results

- `unwinds`: what concerns another network changes nothing here, and what concerns this one
  depends on this one alone
- `network_isolated`: two runs with the same to do for a network leave it alike
-/

namespace ContractPinger

open Machine

/-- The value names the network. -/
def JsValue.asksFor (environment : Environment) : JsValue → Bool
  | .string name => name == environment.name
  | _ => false

/-- The action concerns the network: it names it, or it is the clock's or the shutdown's. -/
def AppAction.concerns (environment : Environment) : AppAction → Bool
  | .post request => request.env.asksFor environment
  | .getWorkers query => (App.queryNetwork query).asksFor environment
  | .getStats query => (App.queryNetwork query).asksFor environment
  | .service other _ => other == environment
  | .abortActiveJobs => true
  | .clock _ => true

/-- The networks have distinct names. -/
theorem Environment.name_injective {e e' : Environment} (h : e.name = e'.name) : e = e' := by
  cases e <;> cases e' <;> first | rfl | exact absurd h (by decide)

/-- A value asks for one network at most. -/
theorem JsValue.asksFor_eq {value : JsValue} {e e' : Environment} (h : value.asksFor e = true)
    (h' : value.asksFor e' = true) : e = e' := by
  cases value with
  | string name =>
    simp only [JsValue.asksFor, beq_iff_eq] at h h'
    exact Environment.name_injective (h.symm.trans h')
  | _ => cases h

/-- An action that concerns two networks is the clock's or the shutdown's. -/
theorem AppAction.shared {a : AppAction} {e e' : Environment} (hne : e' ≠ e)
    (h : a.concerns e = true) (h' : a.concerns e' = true) :
    a = .abortActiveJobs ∨ ∃ now, a = .clock now := by
  cases a with
  | post request => exact absurd (JsValue.asksFor_eq h' h) hne
  | getWorkers query => exact absurd (JsValue.asksFor_eq h' h) hne
  | getStats query => exact absurd (JsValue.asksFor_eq h' h) hne
  | service other action =>
    simp only [AppAction.concerns, beq_iff_eq] at h h'
    exact absurd (h'.symm.trans h) hne
  | abortActiveJobs => exact .inl rfl
  | clock now => exact .inr ⟨now, rfl⟩

namespace App

variable {c : Config} {app app' : App} {e : Environment}

/-- What a network sees of the server. -/
def viewOf (e : Environment) (app : App) : Option World × Millis := (app.services e, app.now)

/-- Two servers look alike to a network whose service and clock are the same. -/
theorem viewOf_eq_iff : viewOf e app = viewOf e app' ↔
    app.services e = app'.services e ∧ app.now = app'.now := by
  rw [viewOf, viewOf, Prod.mk.injEq]

/-- Only a value that names a network resolves to it. -/
theorem asksFor_of_resolve {network : JsValue} {w : World}
    (h : app.resolve c network = .ok (.ok (e, w))) : network.asksFor e = true := by
  unfold resolve at h
  split at h
  · rename_i name
    split at h
    · cases h
    · rename_i environment hfind
      -- the service resolved is of the environment whose name was asked for
      have hname := List.find?_some hfind
      split at h
      · cases h
      · cases hservice : app.getService c environment with
        | error e => rw [hservice] at h; cases h
        | ok w => rw [hservice] at h; cases h; exact BEq.symm hname
  · cases h

/-- What a value that names the network resolves to depends on that network alone. -/
theorem resolve_congr {network : JsValue} (h : network.asksFor e = true)
    (hview : viewOf e app = viewOf e app') : app.resolve c network = app'.resolve c network := by
  obtain ⟨hservices, hnow⟩ := viewOf_eq_iff.mp hview
  cases network with
  | string name =>
    simp only [JsValue.asksFor, beq_iff_eq] at h
    subst h
    have hfind : bidirectionalEnvironments.find? (fun environment => environment.name == e.name) =
        some e := by
      cases e <;> decide
    have hservice : app.getService c e = app'.getService c e := by
      simp only [getService, App.serviceAt, hservices, hnow]
    simp only [resolve, hfind, hservice]
  | _ => cases h

/-- Setting the service of one network shows on that network. -/
theorem viewOf_setService (w : World) :
    viewOf e (app.setService e w) = (some w, app.now) := by
  simp [viewOf, App.setService]

/-- Another network's service is not seen. -/
theorem viewOf_setService_ne {other : Environment} (hne : other ≠ e) (w : World) :
    viewOf e (app.setService other w) = viewOf e app := by
  simp [viewOf, App.setService, Function.update_of_ne (Ne.symm hne)]

/-- The answer, and what becomes of the network, depend on the network that is asked for. -/
theorem post_congr {request : PostRequest} (h : request.env.asksFor e = true)
    (hview : viewOf e app = viewOf e app') :
    (app.post c request).2 = (app'.post c request).2 ∧
      viewOf e (app.post c request).1 = viewOf e (app'.post c request).1 := by
  have hnow := (viewOf_eq_iff.mp hview).2
  unfold post
  split
  · exact ⟨rfl, hview⟩
  · split
    · exact ⟨rfl, hview⟩
    · rw [← resolve_congr h hview]
      split
      · exact ⟨rfl, hview⟩
      · exact ⟨rfl, hview⟩
      · rename_i other w hresolve
        -- the service asked for is the one that is seen
        obtain rfl := JsValue.asksFor_eq h (asksFor_of_resolve hresolve)
        refine ⟨rfl, ?_⟩
        rw [viewOf_setService, viewOf_setService, hnow]

/-- What is asked of another network does not show. -/
theorem post_respects {request : PostRequest} (h : request.env.asksFor e = false) :
    viewOf e (app.post c request).1 = viewOf e app := by
  unfold post
  split
  · rfl
  · split
    · rfl
    · split
      · rfl
      · rfl
      · rename_i other w hresolve
        refine viewOf_setService_ne (fun hother => ?_) _
        -- it would have been asked for by name
        subst hother
        rw [asksFor_of_resolve hresolve] at h
        cases h

/-- Servers that look alike are inspected alike. -/
theorem inspect_congr {query : JsValue} {call : Setup → World → World}
    (h : (queryNetwork query).asksFor e = true) (hview : viewOf e app = viewOf e app') :
    viewOf e (app.inspect c query call) = viewOf e (app'.inspect c query call) := by
  have hnow := (viewOf_eq_iff.mp hview).2
  unfold App.inspect
  rw [← resolve_congr h hview]
  split
  · rename_i other w hresolve
    obtain rfl := JsValue.asksFor_eq h (asksFor_of_resolve hresolve)
    rw [viewOf_setService, viewOf_setService, hnow]
  · exact hview

/-- Inspecting another network is not seen. -/
theorem inspect_respects {query : JsValue} {call : Setup → World → World}
    (h : (queryNetwork query).asksFor e = false) :
    viewOf e (app.inspect c query call) = viewOf e app := by
  unfold App.inspect
  split
  · rename_i other w hresolve
    refine viewOf_setService_ne (fun hother => ?_) _
    subst hother
    rw [asksFor_of_resolve hresolve] at h
    cases h
  · rfl

/-! ## Unwinding the server -/

/-- What concerns another network changes nothing here. -/
theorem step_respects {a : AppAction} (h : a.concerns e = false)
    (hstep : step c app a = some app') : viewOf e app' = viewOf e app := by
  cases a with
  | post request =>
    cases hstep
    exact post_respects h
  | getWorkers query =>
    cases hstep
    exact inspect_respects h
  | getStats query =>
    cases hstep
    exact inspect_respects h
  | service other action =>
    simp only [AppAction.concerns, beq_eq_false_iff_ne] at h
    simp only [App.step] at hstep
    split at hstep
    · simp only [Option.bind_eq_some_iff, Option.map_eq_some_iff] at hstep
      obtain ⟨_, _, _, _, rfl⟩ := hstep
      exact viewOf_setService_ne h _
    · cases hstep
  -- the shutdown and the clock concern every network
  | abortActiveJobs => cases h
  | clock now => cases h

/-- What concerns this network depends on this network alone. -/
theorem step_consistent {a : AppAction} {other : App} (h : a.concerns e = true)
    (hview : viewOf e app = viewOf e other) (hstep : step c app a = some app') :
    ∃ other', step c other a = some other' ∧ viewOf e app' = viewOf e other' := by
  obtain ⟨hservices, hnow⟩ := viewOf_eq_iff.mp hview
  cases a with
  | post request =>
    cases hstep
    exact ⟨_, rfl, (post_congr h hview).2⟩
  | getWorkers query =>
    cases hstep
    exact ⟨_, rfl, inspect_congr h hview⟩
  | getStats query =>
    cases hstep
    exact ⟨_, rfl, inspect_congr h hview⟩
  | service network action =>
    simp only [AppAction.concerns, beq_iff_eq] at h
    subst h
    simp only [App.step] at hstep ⊢
    split at hstep
    · rename_i hresumes
      simp only [Option.bind_eq_some_iff, Option.map_eq_some_iff] at hstep
      obtain ⟨w, hw, w', hstep, rfl⟩ := hstep
      refine ⟨other.setService network w', ?_, ?_⟩
      · simp [hresumes, ← hservices, hw, hstep]
      · rw [viewOf_setService, viewOf_setService, hnow]
    · cases hstep
  | abortActiveJobs =>
    cases hstep
    exact ⟨_, rfl, by simp only [viewOf, hservices, hnow]⟩
  | clock now =>
    cases hstep
    exact ⟨_, rfl, by simp only [viewOf, hservices]⟩

/-- What does not concern a network is not seen by it, and what does is done from what it sees. -/
theorem unwinds (c : Config) (e : Environment) :
    Unwinds (step c) (viewOf e) (AppAction.concerns e) where
  respects _ _ _ h hstep := step_respects h hstep
  consistent _ _ _ _ h hview hstep := step_consistent h hview hstep

/-- Where only one network is asked for, no other has a service. -/
theorem services_none_of_concerns {start : Millis} {as : List AppAction}
    (hexec : exec (step c) (App.new start) as = some app) (has : ∀ a ∈ as, a.concerns e = true)
    {other : Environment} (hne : other ≠ e) : app.services other = none := by
  induction as using List.reverseRecOn generalizing app with
  | nil =>
    cases hexec
    rfl
  | append_singleton rest a ih =>
    rw [exec_concat, Option.bind_eq_some_iff] at hexec
    obtain ⟨before, hbefore, hstep⟩ := hexec
    have hnone := ih hbefore fun b hb => has b (List.mem_append_left _ hb)
    have ha := has a (List.mem_append_right _ (List.mem_singleton_self a))
    -- an action that concerns both networks is the shutdown or the clock, and starts no service
    cases hother : a.concerns other with
    | false => exact (viewOf_eq_iff.mp (step_respects hother hstep)).1.trans hnone
    | true =>
      rcases AppAction.shared hne ha hother with rfl | ⟨now, rfl⟩
      · cases hstep
        simp [hnone]
      · cases hstep
        simp [hnone]

/-- Seen from one network, a run of the server is the run in which nothing else was asked: its
    service is the same, and so is every answer to a request that names it. -/
theorem network_isolated {start : Millis} {as bs : List AppAction}
    (ha : exec (step c) (App.new start) as = some app)
    (hb : exec (step c) (App.new start) bs = some app')
    (hsame : as.filter (AppAction.concerns e) = bs.filter (AppAction.concerns e)) :
    app.services e = app'.services e ∧ app.now = app'.now ∧
      (∀ request : PostRequest, request.env.asksFor e = true →
        (app.post c request).2 = (app'.post c request).2) ∧
      ∃ alone, exec (step c) (App.new start) (as.filter (AppAction.concerns e)) = some alone ∧
        alone.services e = app.services e ∧ ∀ other, other ≠ e → alone.services other = none := by
  -- what the network sees depends only on the actions that concern it
  have hview := (unwinds c e).view_eq rfl ha hb hsame
  obtain ⟨hservices, hnow⟩ := viewOf_eq_iff.mp hview
  obtain ⟨alone, halone, hviewAlone⟩ := (unwinds c e).exec_purge rfl ha
  refine ⟨hservices, hnow, fun request h => (post_congr h hview).1, alone, halone, ?_, ?_⟩
  · exact (viewOf_eq_iff.mp hviewAlone).1.symm
  · exact fun other hne => services_none_of_concerns halone
      (fun a hmem => (List.mem_filter.mp hmem).2) hne

/-! ## A dev network beside mainnet -/

/-- The server of `sampleConfig`, with a dev network too. -/
def sharedConfig : Config :=
  { sampleConfig with
    env :=
      { sampleConfig.env with
        ethRpcUrlSepolia := "http://localhost:8546"
        solRpcUrlDevnet := "http://localhost:8900" } }

/-- Requests to mainnet, with and without others to dev between them. -/
def sharedRun : List AppAction :=
  [.post { sampleRequest with env := .string "dev" }, .post sampleRequest, .clock 1000,
    .getStats .undefined, .service .dev (.resumeDerivation 0 .resume), .post sampleRequest]

def aloneRun : List AppAction := [.post sampleRequest, .clock 1000, .post sampleRequest]

/-- Requests to dev between those to mainnet make no difference to mainnet. -/
theorem sharedRun_isolated :
    ∃ app app', exec (step sharedConfig) (App.new 0) sharedRun = some app ∧
      exec (step sharedConfig) (App.new 0) aloneRun = some app' ∧
      app.services .mainnet = app'.services .mainnet ∧
      (app.post sharedConfig sampleRequest).2 = (app'.post sharedConfig sampleRequest).2 := by
  have hshared : exec (step sharedConfig) (App.new 0) sharedRun = some _ :=
    exec_getD (by decide +kernel) (App.new 0)
  have halone : exec (step sharedConfig) (App.new 0) aloneRun = some _ :=
    exec_getD (by decide +kernel) (App.new 0)
  obtain ⟨hservices, _, hanswers, _⟩ := network_isolated (e := .mainnet) hshared halone rfl
  exact ⟨_, _, hshared, halone, hservices, hanswers sampleRequest rfl⟩

end App

end ContractPinger
