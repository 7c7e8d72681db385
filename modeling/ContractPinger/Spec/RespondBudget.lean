import ContractPinger.Model.RespondWatch
import ContractPinger.Spec.ShutdownReasons

/-!
# When the respond wait expires first

A job's wait for its respond is registered with the signature wait, for the sum of the three
budgets, and the respond deadline is set at the confirmation. Between the two stand the
signature and the receipt, which have budgets, and the attaching of the signature and the
broadcast, which have none. This file proves that the wait expires before the deadline exactly
when all four took longer than the two budgets, or when the sum is longer than a timer of
Node can wait.

## Key results

- `Timed`: what holds of a job, its wait and its calls at any instant
- `inTime_iff`: a run keeps every wait alive to its deadline, and no job is failed over a
  respond that has arrived, exactly when every job is confirmed in time
-/

namespace ContractPinger

open Machine

/-! ## A wait from stage to stage -/

/-- What is known of the wait of a job that stands at a stage: whether there is one, and whether
    it has been confirmed. -/
def Stage.Fits (confirmed : Option (Option Nat)) : Stage → Prop
  | .idle => confirmed = none
  | .leasing => confirmed = none
  | .leased => confirmed = none
  | .requested => confirmed = some none
  | .signed => confirmed = some none
  | .verified => confirmed = some none
  | .broadcast => confirmed = some none
  | .confirmed => confirmed.isSome = true
  | .rejected => True
  | .ended => True

namespace Frame

variable {s : Setup} {view : RunView} {job : Nat} {f : Frame} {reply : Reply}
  {next : Frame × List Effect} {w : TimedService}

/-- Stopping for good, or before the wait is registered. -/
private theorem fits_proceed {pc : Pc} {before after : List Effect}
    {confirmed : Option (Option Nat)} (h : pc.stage.Fits confirmed) :
    (f.proceed pc before after).1.pc.stage.Fits confirmed := by
  unfold proceed
  split
  · trivial
  · exact h

/-- A build that fails ends the run. -/
private theorem fits_buildFailed {path : String} {balance : Nat} {e : JsError}
    {confirmed : Option (Option Nat)} :
    (resumeLeased.buildFailed job path f balance e).1.pc.stage.Fits confirmed := by
  unfold resumeLeased.buildFailed
  split <;> trivial

/-- From `leasing` on. -/
theorem resumeLeased_fits {path : String}
    (h : f.resumeLeased s view job path f.pc reply = some next)
    (hfits : f.pc.stage.Fits ((w.watches job).map Watch.confirmedAt)) :
    next.1.pc.stage.Fits ((w.noted job f reply).map Watch.confirmedAt) := by
  generalize hpc : f.pc = pc at h
  rw [hpc] at hfits
  unfold TimedService.noted
  rw [hpc]
  cases resumeLeased_stretch h
  -- the checks, and a refused estimate
  case funded => exact fits_proceed hfits
  case built => exact fits_proceed hfits
  case nonceFailed => exact fits_buildFailed
  case estimateFailed => exact fits_buildFailed
  -- the three instants that are noted
  case requested => rfl
  case broadcast =>
    show ((w.watches job).map _).map Watch.confirmedAt = some none
    rw [Option.map_map]
    exact hfits
  case confirmed =>
    obtain ⟨v, hv, _⟩ := Option.map_eq_some_iff.mp hfits
    rw [hv]
    rfl
  all_goals trivial

/-- Whatever a job is answered, its wait fits the stage it goes to. -/
theorem resume_fits (h : f.resume s view job reply = some next)
    (hfits : f.pc.stage.Fits ((w.watches job).map Watch.confirmedAt)) :
    next.1.pc.stage.Fits ((w.noted job f reply).map Watch.confirmedAt) := by
  cases resume_stretch h
  case works h => exact resumeLeased_fits h hfits
  all_goals
    unfold TimedService.noted
    rw [‹f.pc = _›] at hfits ⊢
    first
      | trivial
      | exact fits_proceed hfits

/-- A receipt answers `waitForTransactionReceipt`. -/
theorem resume_receipt {success : Bool}
    (h : f.resume s view job (.receipt success) = some next) :
    ∃ built hash, f.pc = .confirming built hash := by
  unfold resume at h
  cases hpc : f.pc with
  | confirming built hash => exact ⟨built, hash, rfl⟩
  -- at every other `await` a receipt is no answer
  | reconciling paths =>
    rw [hpc] at h
    cases hworker : f.worker <;> cases paths <;> rw [hworker] at h <;> cases h
  | refreshingUnderfunded paths =>
    rw [hpc] at h
    cases hworker : f.worker <;> cases paths <;> rw [hworker] at h <;> cases h
  | _ =>
    rw [hpc] at h
    cases hworker : f.worker <;> rw [hworker] at h <;> cases h

section Ways

variable {pc : Pc} {effects : List Effect} {reason : FailureReason}

/-- The `finally` block fails nothing. -/
private theorem mem_failures_finish (h : reason ∈ failures (f.finish pc effects).2) :
    reason ∈ failures effects := by
  rwa [failures_finish] at h

/-- Nor does a `throwIfAborted`, which throws. -/
private theorem mem_failures_proceed {before after : List Effect}
    (h : reason ∈ failures (f.proceed pc before after).2) :
    reason ∈ failures (before ++ after) := by
  unfold proceed at h
  split at h
  · rw [failures_append]
    exact List.mem_append_left _ (mem_failures_finish h)
  · exact h

/-- A build that failed fails the job for want of funds, or throws. -/
private theorem mem_failures_buildFailed {path : String} {balance : Nat} {e : JsError}
    (h : reason ∈ failures (resumeLeased.buildFailed job path f balance e).2) :
    reason = .preflightUnderfunded := by
  unfold resumeLeased.buildFailed at h
  split at h
  · exact List.mem_singleton.mp (mem_failures_finish h)
  · cases mem_failures_finish h

end Ways

/-- From `leasing` on. -/
theorem resumeLeased_respondTimeout {path : String} {pc : Pc}
    (h : f.resumeLeased s view job path pc reply = some next)
    (hfails : .respondTimeout ∈ failures next.2) : pc = .responding ∧ ∃ e, reply = .throw e := by
  cases resumeLeased_stretch h
  -- the respond wait has ended without an event
  case unresponded e => exact ⟨rfl, e, rfl⟩
  case funded => cases mem_failures_proceed hfails
  case built => cases mem_failures_proceed hfails
  case nonceFailed => cases mem_failures_buildFailed hfails
  case estimateFailed => cases mem_failures_buildFailed hfails
  case confirmed released effects hrel =>
    have hnone : failures effects = [] := by
      have hrelease := failures_releaseLease f
      rwa [hrel] at hrelease
    have hmem : .respondTimeout ∈ failures effects := hfails
    rw [hnone] at hmem
    cases hmem
  -- every other stretch of code fails the job with another reason, or not at all
  all_goals
    first
      | exact absurd (mem_failures_finish hfails) (by simp [failures, Effect.failure?])
      | cases hfails

/-- A job is failed as `respond_timeout` when its respond wait ends without an event, and never
    else. -/
theorem resume_respondTimeout (h : f.resume s view job reply = some next)
    (hfails : .respondTimeout ∈ failures next.2) :
    f.pc = .responding ∧ ∃ e, reply = .throw e := by
  cases resume_stretch h
  case asked => cases mem_failures_proceed hfails
  -- no class of error that `run()` rejects with stands for it
  case recorded e _ =>
    have hreason : .respondTimeout = e.failureReason := List.mem_singleton.mp hfails
    cases e with
    | noWorkerAvailable reason => cases reason <;> cases hreason
    | _ => cases hreason
  case works h => exact resumeLeased_respondTimeout h hfails
  all_goals
    first
      | cases mem_failures_finish hfails
      | cases hfails

end Frame

/-! ## A job, its wait and its calls -/

namespace Watch

variable {s : Setup} {v : Watch} {elapsed later : Nat}
  {outcome : Except JsError SerializedOutput}

/-- A deadline is due by when the receipt came. -/
theorem due_congr {v' : Watch} (h : v'.confirmedAt = v.confirmedAt) :
    v'.due s elapsed = v.due s elapsed := by
  rw [due, due, h]

/-- What is due stays due. -/
theorem due_mono (h : v.due s elapsed = true) (hle : elapsed ≤ later) : v.due s later = true := by
  unfold due at h ⊢
  cases hconfirmed : v.confirmedAt with
  | none =>
    rw [hconfirmed] at h
    cases h
  | some confirmed =>
    simp only [hconfirmed, Option.any_some, decide_eq_true_eq] at h ⊢
    omega

/-- Settling a promise settles it now, or leaves it as it was. -/
theorem settle_cases (v : Watch) (elapsed : Nat) (outcome : Except JsError SerializedOutput) :
    v.settled = none ∧ (v.settle elapsed outcome).settled = some (elapsed, outcome) ∨
      v.settled.isSome = true ∧ v.settle elapsed outcome = v := by
  cases hsettled : v.settled with
  | none => exact .inl ⟨rfl, by rw [settle, hsettled]; rfl⟩
  | some entry =>
    refine .inr ⟨rfl, ?_⟩
    show { v with settled := v.settled <|> some (elapsed, outcome) } = v
    rw [hsettled]
    cases v
    cases hsettled
    rfl

/-- What holds of a wait at any instant. -/
structure Sound (s : Setup) (elapsed : Nat) (shutdown : Bool) (v : Watch) : Prop where
  registered : v.registeredAt ≤ elapsed
  /-- The confirmation comes after the registration. -/
  confirmed : ∀ confirmed, v.confirmedAt = some confirmed → v.registeredAt ≤ confirmed
  past : ∀ time outcome, v.settled = some (time, outcome) → time ≤ elapsed
  /-- It ends without an event at its expiry, at the deadline or in a shutdown. -/
  errors : ∀ time e, v.settled = some (time, .error e) →
    shutdown = true ∨ v.expiry s ≤ time ∨ v.due s time = true
  /-- An event finds it settled, or settles it. -/
  arrived : ∀ arrival, v.arrivedAt = some arrival →
    ∃ time outcome, v.settled = some (time, outcome) ∧ time ≤ arrival

namespace Sound

variable {shutdown : Bool}

/-- Time passing leaves it so. -/
theorem mono (h : v.Sound s elapsed shutdown) (hle : elapsed ≤ later) :
    v.Sound s later shutdown :=
  { h with
    registered := h.registered.trans hle
    past := fun time outcome hsettled => (h.past time outcome hsettled).trans hle }

/-- Whether or not this is a shutdown. -/
theorem weaken (h : v.Sound s elapsed shutdown) (now : Bool) :
    v.Sound s elapsed (shutdown || now) :=
  { h with
    errors := fun time e hsettled =>
      (h.errors time e hsettled).imp_left fun hbefore => by rw [hbefore, Bool.true_or] }

/-- The wait ends without an event, for a cause. -/
theorem settle_error (h : v.Sound s elapsed shutdown) (e : JsError)
    (hcause : shutdown = true ∨ v.expiry s ≤ elapsed ∨ v.due s elapsed = true) :
    (v.settle elapsed (.error e)).Sound s elapsed shutdown := by
  -- a promise settles once: either this error settles it, or it was settled before
  rcases v.settle_cases elapsed (.error e) with ⟨hpending, hsettled⟩ | ⟨_, hsame⟩
  · refine ⟨h.registered, h.confirmed, ?_, ?_, ?_⟩
    · intro time outcome hnew
      rw [hsettled] at hnew
      cases hnew
      exact Nat.le_refl _
    · intro time error hnew
      rw [hsettled] at hnew
      cases hnew
      exact hcause
    · -- an arrival would have settled it
      intro arrival harrival
      obtain ⟨_, _, hbefore, _⟩ := h.arrived arrival harrival
      rw [hpending] at hbefore
      cases hbefore
  · rwa [hsame]

/-- The respond arrives. -/
theorem arrive (h : v.Sound s elapsed shutdown) (output : SerializedOutput) :
    ({ v.settle elapsed (.ok output) with arrivedAt := v.arrivedAt <|> some elapsed } :
      Watch).Sound s elapsed shutdown := by
  -- the arrival on record is the first of them
  have harrived : ∀ arrival, (v.arrivedAt <|> some elapsed) = some arrival →
      v.arrivedAt = some arrival ∨ arrival = elapsed := by
    intro arrival harrival
    cases hbefore : v.arrivedAt with
    | none =>
      rw [hbefore] at harrival
      exact .inr (Option.some.inj harrival).symm
    | some before =>
      rw [hbefore] at harrival
      exact .inl harrival
  rcases v.settle_cases elapsed (.ok output) with ⟨hpending, hsettled⟩ | ⟨hsome, hsame⟩
  · refine ⟨h.registered, h.confirmed, ?_, ?_, ?_⟩
    · intro time outcome hnew
      rw [show _ = some (elapsed, _) from hsettled] at hnew
      cases hnew
      exact Nat.le_refl _
    · intro time error hnew
      rw [show _ = some (elapsed, _) from hsettled] at hnew
      cases hnew
    · intro arrival harrival
      rcases harrived arrival harrival with hbefore | rfl
      · obtain ⟨_, _, hearlier, _⟩ := h.arrived arrival hbefore
        rw [hpending] at hearlier
        cases hearlier
      · exact ⟨arrival, _, hsettled, Nat.le_refl _⟩
  · rw [hsame]
    refine ⟨h.registered, h.confirmed, h.past, h.errors, ?_⟩
    intro arrival harrival
    rcases harrived arrival harrival with hbefore | rfl
    · exact h.arrived arrival hbefore
    · obtain ⟨⟨time, outcome⟩, hsettled⟩ := Option.isSome_iff_exists.mp hsome
      exact ⟨time, outcome, hsettled, h.past time outcome hsettled⟩

/-- The receipt is there. -/
theorem confirm (h : v.Sound s elapsed shutdown) (hbefore : v.confirmedAt = none) :
    ({ v with confirmedAt := some elapsed } : Watch).Sound s elapsed shutdown := by
  refine ⟨h.registered, ?_, h.past, ?_, h.arrived⟩
  · intro confirmed hconfirmed
    have hnow : elapsed = confirmed := Option.some.inj hconfirmed
    exact hnow ▸ h.registered
  intro time e hsettled
  refine (h.errors time e hsettled).imp_right (Or.imp_right fun hdue => ?_)
  -- there was no deadline yet
  rw [due, hbefore] at hdue
  cases hdue

end Sound

/-- The wait does not expire before the deadline. -/
def Outlasts (s : Setup) (v : Watch) : Prop :=
  ∀ confirmed, v.confirmedAt = some confirmed →
    confirmed + s.env.bidirectional.respondTimeoutMs ≤ v.expiry s

/-- What outlasts the respond is read off the two instants. -/
theorem Outlasts.congr {v' : Watch} (h : v.Outlasts s)
    (hregistered : v'.registeredAt = v.registeredAt)
    (hconfirmed : v'.confirmedAt = v.confirmedAt) : v'.Outlasts s := by
  intro confirmed hv'
  rw [expiry, hregistered]
  exact h confirmed (hconfirmed ▸ hv')

/-- Before the confirmation there is no deadline. -/
theorem Outlasts.unconfirmed (h : v.confirmedAt = none) : v.Outlasts s := by
  intro confirmed hconfirmed
  rw [h] at hconfirmed
  cases hconfirmed

/-- A confirmation at this instant is early enough. With a span that a timer takes, the first
    two budgets are what may be spent; with any other the wait is over after a millisecond. -/
def earlyEnough (s : Setup) (elapsed : Nat) (v : Watch) : Bool :=
  if FitsTimer (span s) then
    elapsed ≤ v.registeredAt + (s.env.bidirectional.signatureTimeoutMs +
      s.env.bidirectional.ethConfirmTimeoutMs)
  else elapsed + s.env.bidirectional.respondTimeoutMs ≤ v.registeredAt + 1

/-- Once the receipt is there, the wait outlasts the deadline if it came early enough. -/
theorem outlasts_confirm_iff :
    ({ v with confirmedAt := some elapsed } : Watch).Outlasts s ↔
      v.earlyEnough s elapsed = true := by
  simp only [Outlasts, Option.some.injEq, forall_eq', expiry, earlyEnough, timerDelay]
  split
  · simp only [span, decide_eq_true_eq]
    omega
  · exact decide_eq_true_iff.symm

/-- Where the wait outlasts the deadline, the deadline is not due before the respond budget is
    over: a budget that is too long for a timer makes a span that is. -/
theorem Outlasts.le_timerDelay {shutdown : Bool} {confirmed : Nat} (h : v.Outlasts s)
    (hsound : v.Sound s elapsed shutdown) (hconfirmed : v.confirmedAt = some confirmed) :
    s.env.bidirectional.respondTimeoutMs ≤ timerDelay s.env.bidirectional.respondTimeoutMs := by
  have hexpiry := h confirmed hconfirmed
  have hafter := hsound.confirmed confirmed hconfirmed
  have hbudget : s.env.bidirectional.respondTimeoutMs ≤ span s := Nat.le_add_left _ _
  by_cases hfits : FitsTimer s.env.bidirectional.respondTimeoutMs
  · rw [timerDelay, if_pos hfits]
  · rw [timerDelay, if_neg hfits]
    by_cases hspan : FitsTimer (span s)
    · -- only a budget of nothing is left
      unfold FitsTimer at hfits hspan
      omega
    · rw [expiry, timerDelay, if_neg hspan] at hexpiry
      omega

end Watch

/-- What holds of a job, its respond wait and its calls at any instant. -/
structure Timed (s : Setup) (elapsed : Nat) (shutdown : Bool) (frame : Option Frame)
    (watch : Option Watch) (calls : List Effect) : Prop where
  absent : frame = none → watch = none
  fits : ∀ f, frame = some f → f.pc.stage.Fits (watch.map Watch.confirmedAt)
  sound : ∀ v, watch = some v → v.Sound s elapsed shutdown
  /-- A job that still runs is aborted at the deadline or in a shutdown. -/
  aborted : ∀ f, frame = some f → f.pc.leg ≠ .over → f.aborted.isSome = true →
    shutdown = true ∨ ∃ v, watch = some v ∧ v.due s elapsed = true
  /-- A job that is failed over its respond has been told so by its wait. -/
  failed : .respondTimeout ∈ failures calls →
    ∃ v, watch = some v ∧ ∃ e, v.outcome = some (.error e)

namespace Timed

variable {s : Setup} {elapsed later : Nat} {shutdown : Bool} {frame : Option Frame} {f g : Frame}
  {watch : Option Watch} {v v' : Watch} {calls : List Effect}

theorem mono (h : Timed s elapsed shutdown frame watch calls) (hle : elapsed ≤ later) :
    Timed s later shutdown frame watch calls := by
  refine { h with sound := fun v hv => (h.sound v hv).mono hle, aborted := ?_ }
  intro f hf hleg haborted
  refine (h.aborted f hf hleg haborted).imp_right fun hdue => ?_
  obtain ⟨v, hv, hdue⟩ := hdue
  exact ⟨v, hv, Watch.due_mono hdue hle⟩

/-- Whether or not this is a shutdown. -/
theorem weaken (h : Timed s elapsed shutdown frame watch calls) (now : Bool) :
    Timed s elapsed (shutdown || now) frame watch calls :=
  { h with
    sound := fun v hv => (h.sound v hv).weaken now
    aborted := fun f hf hleg haborted =>
      (h.aborted f hf hleg haborted).imp_left fun hbefore => by rw [hbefore, Bool.true_or] }

/-- The wait changes, but for its confirmation and an outcome it has. -/
theorem rewatch (h : Timed s elapsed shutdown frame (some v) calls)
    (hconfirmed : v'.confirmedAt = v.confirmedAt) (hsound : v'.Sound s elapsed shutdown)
    (houtcome : ∀ e, v.outcome = some (.error e) → v'.outcome = some (.error e)) :
    Timed s elapsed shutdown frame (some v') calls := by
  refine ⟨fun hnone => ?_, fun f hf => ?_, ?_, ?_, ?_⟩
  · exact nomatch h.absent hnone
  · rw [Option.map_some, hconfirmed]
    exact h.fits f hf
  · intro v'' hv
    exact Option.some.inj hv ▸ hsound
  · -- the deadline is counted from the confirmation, which is the same
    intro f hf hleg haborted
    refine (h.aborted f hf hleg haborted).imp_right fun hdue => ?_
    obtain ⟨before, hv, hdue⟩ := hdue
    obtain rfl := Option.some.inj hv
    exact ⟨v', rfl, by rw [Watch.due_congr hconfirmed, hdue]⟩
  · intro hfailed
    obtain ⟨before, hv, e, herror⟩ := h.failed hfailed
    obtain rfl := Option.some.inj hv
    exact ⟨v', rfl, e, houtcome e herror⟩

/-- Settling the promise keeps an outcome it has. -/
theorem outcome_settle {e : JsError} {outcome : Except JsError SerializedOutput}
    (h : v.outcome = some (.error e)) : (v.settle elapsed outcome).outcome = some (.error e) := by
  rcases v.settle_cases elapsed outcome with ⟨hpending, _⟩ | ⟨_, hsame⟩
  · rw [Watch.outcome, hpending] at h
    cases h
  · rwa [hsame]

/-- The wait ends without an event, for a cause. -/
theorem settle_error (h : Timed s elapsed shutdown frame (some v) calls) (e : JsError)
    (hcause : shutdown = true ∨ v.expiry s ≤ elapsed ∨ v.due s elapsed = true) :
    Timed s elapsed shutdown frame (some (v.settle elapsed (.error e))) calls :=
  h.rewatch rfl ((h.sound v rfl).settle_error e hcause) fun _ => outcome_settle

/-- The respond arrives. -/
theorem arrive (h : Timed s elapsed shutdown frame (some v) calls) (output : SerializedOutput) :
    Timed s elapsed shutdown frame (some { v.settle elapsed (.ok output) with
      arrivedAt := v.arrivedAt <|> some elapsed }) calls :=
  h.rewatch rfl ((h.sound v rfl).arrive output) fun _ => outcome_settle

/-- The controller of a job is aborted, for a cause. -/
theorem abort (h : Timed s elapsed shutdown (some f) watch calls) (hpc : g.pc = f.pc)
    (hcause : shutdown = true ∨ ∃ v, watch = some v ∧ v.due s elapsed = true) :
    Timed s elapsed shutdown (some g) watch calls := by
  refine { h with absent := nofun, fits := ?_, aborted := ?_ }
  · intro g' hg
    obtain rfl := Option.some.inj hg
    rw [hpc]
    exact h.fits f rfl
  · exact fun _ _ _ _ => hcause

/-- A job that has just been accepted. -/
theorem accept (h : Timed s elapsed shutdown none watch calls) (hfresh : f.Fresh s) :
    Timed s elapsed shutdown (some f) watch calls := by
  -- a job just accepted has registered no wait
  have hnone := h.absent rfl
  refine { h with absent := nofun, fits := ?_, aborted := ?_ }
  · intro g hg
    obtain rfl := Option.some.inj hg
    rw [hnone]
    cases hfresh with
    | running _ _ _ heq =>
      rw [heq]
      rfl
    | rejected _ _ heq =>
      rw [heq]
      trivial
  · intro g hg _ haborted
    obtain rfl := Option.some.inj hg
    rw [hfresh.aborted] at haborted
    cases haborted

/-- What an answer makes of a wait. -/
inductive Notes (w : TimedService) (job : Nat) (f : Frame) (reply : Reply) : Option Watch → Prop
  | same : Notes w job f reply (w.watches job)
  | registers (stands : f.pc.leg ≠ .over) (before : w.watches job = none) :
      Notes w job f reply (some { registeredAt := w.elapsed
                                  settled := f.aborted.map fun e => (w.elapsed, .error e) })
  | waits (v : Watch) (before : w.watches job = some v) :
      Notes w job f reply (some { v with waitingAt := some w.elapsed })
  | confirms (v : Watch) (isReceipt : reply = .receipt true) (before : w.watches job = some v)
      (unconfirmed : v.confirmedAt = none) :
      Notes w job f reply (some { v with confirmedAt := some w.elapsed })

/-- What an answer makes of a wait, for a job whose wait fits its stage. -/
theorem noted_notes {w : TimedService} {job : Nat} {reply : Reply}
    (hfits : f.pc.stage.Fits ((w.watches job).map Watch.confirmedAt)) :
    Notes w job f reply (w.noted job f reply) := by
  unfold TimedService.noted
  split
  · -- before the registration there is no watch
    rename_i hpc
    rw [hpc] at hfits
    exact .registers (by rw [hpc]; simp [Pc.leg]) (Option.map_eq_none_iff.mp hfits)
  · -- broadcast: the wait for the receipt begins
    rename_i hpc
    rw [hpc] at hfits
    obtain ⟨v, hv, _⟩ := Option.map_eq_some_iff.mp hfits
    rw [hv]
    exact .waits v hv
  · -- the receipt itself
    rename_i hpc
    rw [hpc] at hfits
    obtain ⟨v, hv, hconfirmed⟩ := Option.map_eq_some_iff.mp hfits
    rw [hv]
    exact .confirms v rfl hv hconfirmed
  · exact .same

/-- A wait that is there stays, with its outcome and its deadline. -/
theorem Notes.keeps {w : TimedService} {job : Nat} {reply : Reply} {noted : Option Watch}
    (h : Notes w job f reply noted) (hv : w.watches job = some v) :
    ∃ v', noted = some v' ∧ v'.outcome = v.outcome ∧
      (v.due s w.elapsed = true → v'.due s w.elapsed = true) := by
  cases h with
  | same => exact ⟨v, hv, rfl, id⟩
  | registers _ hbefore =>
    rw [hbefore] at hv
    cases hv
  | waits v' hbefore =>
    obtain rfl := Option.some.inj (hbefore.symm.trans hv)
    exact ⟨_, rfl, rfl, id⟩
  | confirms v' _ hbefore hunconfirmed =>
    obtain rfl := Option.some.inj (hbefore.symm.trans hv)
    refine ⟨_, rfl, rfl, fun hdue => ?_⟩
    -- there was no deadline yet
    rw [Watch.due, hunconfirmed] at hdue
    cases hdue

/-- A wait that is registered on an aborted signal is one of a shutdown. -/
theorem Notes.sound {w : TimedService} {job : Nat} {reply : Reply} {noted : Option Watch}
    (h : Notes w job f reply noted)
    (hbefore : Timed s w.elapsed w.shutdown (some f) (w.watches job) calls)
    (hv : noted = some v) : v.Sound s w.elapsed w.shutdown := by
  cases h with
  | same => exact hbefore.sound v hv
  | registers hstands hnone =>
    obtain rfl := Option.some.inj hv
    -- registered now; it is settled already only where the job had been aborted
    refine ⟨Nat.le_refl _, nofun, ?_, ?_, nofun⟩
    · intro time outcome hsettled
      obtain ⟨_, _, heq⟩ := Option.map_eq_some_iff.mp hsettled
      cases heq
      exact Nat.le_refl _
    · intro time e hsettled
      obtain ⟨reason, haborted, _⟩ := Option.map_eq_some_iff.mp hsettled
      -- without a watch no deadline has passed, so it was the shutdown that aborted it
      refine .inl ((hbefore.aborted f rfl hstands (by rw [haborted]; rfl)).resolve_right ?_)
      rintro ⟨v, hv, _⟩
      rw [hnone] at hv
      cases hv
  | waits v' hv' =>
    obtain rfl := Option.some.inj hv
    have hsound := hbefore.sound v' hv'
    exact ⟨hsound.registered, hsound.confirmed, hsound.past, hsound.errors, hsound.arrived⟩
  | confirms v' _ hv' hunconfirmed =>
    obtain rfl := Option.some.inj hv
    exact (hbefore.sound v' hv').confirm hunconfirmed

/-- A job is resumed with an answer that can come at this instant. -/
theorem resume {w : TimedService} {view : RunView} {job : Nat} {reply : Reply}
    {next : Frame × List Effect}
    (h : Timed s w.elapsed w.shutdown (some f) (w.watches job) calls)
    (hresume : f.resume s view job reply = some next)
    (htimely : w.timely s job f.pc reply = true) :
    Timed s w.elapsed w.shutdown (some next.1) (w.noted job f reply) (calls ++ next.2) := by
  have hnotes : Notes w job f reply (w.noted job f reply) := noted_notes (h.fits f rfl)
  refine ⟨nofun, ?_, fun v hv => hnotes.sound h hv, ?_, ?_⟩
  · intro g hg
    obtain rfl := Option.some.inj hg
    exact Frame.resume_fits hresume (h.fits f rfl)
  · intro g hg hleg haborted
    obtain rfl := Option.some.inj hg
    -- the controller is as it was, or the run is over
    rcases Frame.resume_minds hresume with ⟨_, hsame, hover⟩ | ⟨hover, _⟩
    · rw [hsame] at haborted
      refine (h.aborted f rfl (fun hf => hleg (hover hf)) haborted).imp_right fun hdue => ?_
      obtain ⟨v, hv, hdue⟩ := hdue
      obtain ⟨v', hv', _, hkept⟩ := hnotes.keeps hv
      exact ⟨v', hv', hkept hdue⟩
    · exact absurd hover hleg
  · intro hfailed
    rw [failures_append, List.mem_append] at hfailed
    have htold : ∃ v, w.watches job = some v ∧ ∃ e, v.outcome = some (.error e) := by
      rcases hfailed with hold | hnew
      · exact h.failed hold
      · obtain ⟨hpc, e, rfl⟩ := Frame.resume_respondTimeout hresume hnew
        rw [hpc, TimedService.timely, beq_iff_eq] at htimely
        obtain ⟨v, hv, herror⟩ := Option.bind_eq_some_iff.mp htimely
        exact ⟨v, hv, e, herror⟩
    obtain ⟨v, hv, e, herror⟩ := htold
    obtain ⟨v', hv', hsame, _⟩ := hnotes.keeps (s := s) hv
    exact ⟨v', hv', e, hsame.trans herror⟩

end Timed

/-! ## Steps -/

namespace TimedService

variable {s : Setup} {w w' : TimedService}

/-- What holds of every job at any instant. -/
def Inv (s : Setup) (w : TimedService) : Prop :=
  ∀ job, Timed s w.elapsed w.shutdown w.world.frames[job]? (w.watches job) (w.world.callsOf job)

/-- Nothing has been registered on a new service. -/
theorem inv_new (s : Setup) (now : Millis) : (new s now).Inv s := by
  intro job
  refine ⟨fun _ => rfl, fun f hf => ?_, fun v hv => ?_, fun f hf => ?_, fun hfailed => ?_⟩
  · cases hf
  · cases hv
  · cases hf
  · have hnone : failures ((new s now).world.callsOf job) = [] := rfl
    rw [hnone] at hfailed
    cases hfailed

/-- A step of the service with a clock is one of the service, at an instant that permits it. -/
theorem step_service {action : Action} (h : step s w (.service action) = some w') :
    w.permits s action = true ∧ ∃ world, World.step s w.world action = some world ∧
      w' = { w with
        world
        watches := fun job => w.watchAfter s job action
        shutdown := w.shutdown || action == .abortActiveJobs } := by
  simp only [step, Option.ite_none_right_eq_some] at h
  obtain ⟨hpermits, hmap⟩ := h
  obtain ⟨world, hworld, rfl⟩ := Option.map_eq_some_iff.mp hmap
  exact ⟨hpermits, world, hworld, rfl⟩

/-- What a step of the service makes of the wait of a job that it does not resume. -/
theorem watchAfter_cases {action : Action} {job : Nat}
    (hother : action.resumed ≠ some (.job job)) (hpermits : w.permits s action = true) :
    w.watchAfter s job action = w.watches job ∨
      ∃ v e, w.watches job = some v ∧
        w.watchAfter s job action = some (v.settle w.elapsed (.error e)) ∧
        (action = .abortActiveJobs ∨ v.due s w.elapsed = true) := by
  cases action with
  | resume other reply =>
    have hne : other ≠ job := fun hsame => hother (by rw [hsame]; rfl)
    refine .inl ?_
    cases hframe : w.world.frames[job]? <;> simp [watchAfter, hframe, hne]
  | respondDeadline other =>
    cases hwatch : w.watches job with
    | none => exact .inl (by rw [watchAfter, hwatch]; rfl)
    | some v =>
      rw [watchAfter, hwatch, Option.map_some]
      split
      · rename_i hsame
        rw [hsame, permits, hwatch] at hpermits
        -- the timer fires only when it is due
        exact .inr ⟨v, _, rfl, rfl, .inr hpermits⟩
      · exact .inl rfl
  | abortActiveJobs =>
    cases hwatch : w.watches job with
    | none => exact .inl (by rw [watchAfter, hwatch]; rfl)
    | some v =>
      rw [watchAfter, hwatch, Option.map_some]
      split
      · exact .inr ⟨v, _, rfl, rfl, .inl rfl⟩
      · exact .inl rfl
  | _ => exact .inl rfl

/-- A step of the service that does not resume the job. -/
theorem timed_unresumed {action : Action} {job : Nat} {frame : Option Frame}
    {calls : List Effect} (h : Timed s w.elapsed w.shutdown frame (w.watches job) calls)
    (hother : action.resumed ≠ some (.job job)) (hpermits : w.permits s action = true) :
    Timed s w.elapsed (w.shutdown || action == .abortActiveJobs) frame
      (w.watchAfter s job action) calls := by
  have hlater := h.weaken (action == .abortActiveJobs)
  rcases watchAfter_cases hother hpermits with hsame | ⟨v, e, hv, hafter, hcause⟩
  · rwa [hsame]
  · rw [hafter]
    rw [hv] at hlater
    refine hlater.settle_error e (hcause.elim (fun habort => .inl ?_) fun hdue => .inr (.inr hdue))
    rw [habort]
    exact Bool.or_true _

/-- A step of the service keeps what holds of a job. -/
theorem timed_service {action : Action} {world : World} {job : Nat}
    (h : Timed s w.elapsed w.shutdown w.world.frames[job]? (w.watches job) (w.world.callsOf job))
    (hpermits : w.permits s action = true) (hstep : World.step s w.world action = some world) :
    Timed s w.elapsed (w.shutdown || action == .abortActiveJobs) world.frames[job]?
      (w.watchAfter s job action) (world.callsOf job) := by
  cases World.step_job hstep job with
  | absent hbefore hafter hother hcalls =>
    rw [hafter, hcalls, ← hbefore]
    exact timed_unresumed h hother hpermits
  | accepted f mode hisStart hid hafter hfresh hcalls =>
    rw [hid, List.getElem?_eq_none (Nat.le_refl _), ← hid] at h
    rw [hafter, hcalls]
    exact timed_unresumed (h.accept hfresh) (by rw [hisStart]; exact nofun) hpermits
  | resumed reply f g effects hresumed hbefore hafter hresume _ hcalls =>
    -- the replies of a watched wait are those the watch allows
    have htimely : w.timely s job f.pc reply = true := by
      simpa [permits, hresumed, hbefore] using hpermits
    have hwatch : w.watchAfter s job action = w.noted job f reply := by
      simp [watchAfter, hresumed, hbefore]
    rw [hwatch, hafter, hcalls]
    rw [hbefore] at h
    exact (h.resume hresume htimely).weaken _
  | stays f hbefore hafter hother _ hcalls =>
    rw [hafter, hcalls, ← hbefore]
    exact timed_unresumed h hother hpermits
  | deadline f hisDeadline hbefore _ hafter hcalls =>
    -- the deadline settles the watch as well as it aborts the job
    have hkept := timed_unresumed h (by rw [hisDeadline]; exact nofun) hpermits
    rw [hbefore] at hkept
    rw [hafter, hcalls]
    rw [hisDeadline, permits, Option.any_eq_true] at hpermits
    obtain ⟨v, hv, hdue⟩ := hpermits
    refine hkept.abort rfl
      (.inr ⟨v.settle w.elapsed (.error (World.respondDeadlineError s)), ?_, ?_⟩)
    · rw [hisDeadline, watchAfter, hv, Option.map_some, if_pos rfl]
    · exact hdue
  | aborted f hisAbort hbefore _ hafter hcalls =>
    have hkept := timed_unresumed h (by rw [hisAbort]; exact nofun) hpermits
    rw [hbefore] at hkept
    rw [hafter, hcalls]
    exact hkept.abort rfl (.inl (by rw [hisAbort]; exact Bool.or_true _))

/-- The wait of one job changes. -/
theorem Inv.rewatch {job : Nat} {v : Watch} (h : w.Inv s)
    (hjob : Timed s w.elapsed w.shutdown w.world.frames[job]? (some v) (w.world.callsOf job)) :
    Inv s { w with watches := Function.update w.watches job (some v) } := by
  intro other
  by_cases hsame : other = job
  · subst hsame
    show Timed s _ _ _ (Function.update w.watches other _ other) _
    rwa [Function.update_self]
  · show Timed s _ _ _ (Function.update w.watches job _ other) _
    rw [Function.update_of_ne hsame]
    exact h other

/-- Every step keeps what holds of every job. -/
theorem inv_step {a : TimedAction} (h : w.Inv s) (hstep : step s w a = some w') : w'.Inv s := by
  cases a with
  | service action =>
    obtain ⟨hpermits, world, hworld, rfl⟩ := step_service hstep
    exact fun job => timed_service (h job) hpermits hworld
  | tick ms =>
    cases hstep
    -- time only passes: what was due stays due
    exact fun job => (h job).mono (Nat.le_add_right _ _)
  | respondArrives job output =>
    obtain ⟨v, hv, rfl⟩ := Option.map_eq_some_iff.mp hstep
    have hjob := h job
    rw [hv] at hjob
    exact h.rewatch (hjob.arrive output)
  | watchExpires job error =>
    obtain ⟨v, hv, hwatch⟩ := Option.bind_eq_some_iff.mp hstep
    obtain ⟨hexpired, heq⟩ := Option.ite_none_right_eq_some.mp hwatch
    obtain rfl := Option.some.inj heq
    have hjob := h job
    rw [hv] at hjob
    exact h.rewatch (hjob.settle_error error (.inr (.inl hexpired)))

/-! ## The two timers -/

/-- No wait expires before the respond budget of its job, and a job whose respond arrives within
    that budget is not failed over it. -/
structure RespondsInTime (s : Setup) (w : TimedService) : Prop where
  outlasts : ∀ job v, w.watches job = some v → v.Outlasts s
  unfailed : ∀ job v confirmed arrival, w.watches job = some v →
    v.confirmedAt = some confirmed → v.arrivedAt = some arrival →
    arrival < confirmed + s.env.bidirectional.respondTimeoutMs → w.shutdown = false →
    .respondTimeout ∉ failures (w.world.callsOf job)

/-- The second follows from the first. -/
theorem respondsInTime_iff (h : w.Inv s) :
    w.RespondsInTime s ↔ ∀ job v, w.watches job = some v → v.Outlasts s := by
  refine ⟨RespondsInTime.outlasts, fun houtlasts => ⟨houtlasts, ?_⟩⟩
  intro job v confirmed arrival hv hconfirmed harrival hwithin hrunning hfailed
  obtain ⟨v', hv', e, herror⟩ := (h job).failed hfailed
  obtain rfl := Option.some.inj (hv.symm.trans hv')
  have hsound := (h job).sound v hv
  obtain ⟨⟨time, outcome⟩, hsettled, heq⟩ := Option.map_eq_some_iff.mp herror
  obtain rfl : outcome = .error e := heq
  -- what the respond has found settled was settled before it
  have hbefore : time ≤ arrival := by
    obtain ⟨time', _, hsettled', hle⟩ := hsound.arrived arrival harrival
    rw [hsettled] at hsettled'
    cases hsettled'
    exact hle
  have hspan := houtlasts job v hv confirmed hconfirmed
  rcases hsound.errors time e hsettled with hshutdown | hexpired | hdue
  · rw [hrunning] at hshutdown
    cases hshutdown
  · omega
  · have hdelay := (houtlasts job v hv).le_timerDelay hsound hconfirmed
    simp only [Watch.due, hconfirmed, Option.any_some, decide_eq_true_eq] at hdue
    omega

/-- A receipt comes early enough after the registration. -/
def inTime (s : Setup) (w : TimedService) : TimedAction → Bool
  | .service (.resume job (.receipt true)) => (w.watches job).all fun v =>
    v.earlyEnough s w.elapsed
  | _ => true

/-- A step of the service but for a receipt of the job. -/
theorem watchAfter_outlasts {action : Action} {job : Nat} {v' : Watch}
    (hfits : ∀ f, w.world.frames[job]? = some f →
      f.pc.stage.Fits ((w.watches job).map Watch.confirmedAt))
    (h : ∀ v, w.watches job = some v → v.Outlasts s) (hpermits : w.permits s action = true)
    (hreceipt : action ≠ .resume job (.receipt true))
    (hafter : w.watchAfter s job action = some v') : v'.Outlasts s := by
  by_cases hother : action.resumed = some (.job job)
  · obtain ⟨reply, rfl⟩ : ∃ reply, action = .resume job reply := by
      cases action <;> simp [Action.resumed] at hother
      exact ⟨_, by rw [hother]⟩
    simp only [watchAfter, if_true] at hafter
    split at hafter
    · rename_i f hf
      have hnotes : Timed.Notes w job f reply (w.noted job f reply) :=
        Timed.noted_notes (hfits f hf)
      generalize w.noted job f reply = noted at hnotes hafter
      -- only a receipt confirms, and it is excluded
      cases hnotes with
      | same => exact h v' hafter
      | registers =>
        obtain rfl := Option.some.inj hafter
        exact .unconfirmed rfl
      | waits v hv =>
        obtain rfl := Option.some.inj hafter
        exact (h v hv).congr rfl rfl
      | confirms _ hisReceipt => exact absurd (by rw [hisReceipt]) hreceipt
    · exact h v' hafter
  · rcases watchAfter_cases hother hpermits with hsame | ⟨v, e, hv, hsettled, _⟩
    · exact h v' (hsame.symm.trans hafter)
    · rw [hsettled] at hafter
      obtain rfl := Option.some.inj hafter
      exact (h v hv).congr rfl rfl

/-- The wait of one job changes, but for its two instants. -/
theorem update_outlasts {changed job : Nat} {v v' v'' : Watch}
    (h : ∀ job v, w.watches job = some v → v.Outlasts s) (hv : w.watches changed = some v)
    (hafter : Function.update w.watches changed (some v') job = some v'')
    (hregistered : v'.registeredAt = v.registeredAt) (hconfirmed : v'.confirmedAt = v.confirmedAt) :
    v''.Outlasts s := by
  rw [Function.update_apply] at hafter
  split at hafter
  · obtain rfl := Option.some.inj hafter
    exact (h changed v hv).congr hregistered hconfirmed
  · exact h job v'' hafter

/-- What a step makes of the wait of one job. -/
theorem outlasts_step_iff {a : TimedAction} (hinv : w.Inv s)
    (h : ∀ job v, w.watches job = some v → v.Outlasts s) (hstep : step s w a = some w')
    (job : Nat) : (∀ v, w'.watches job = some v → v.Outlasts s) ↔
      (a = .service (.resume job (.receipt true)) → w.inTime s a = true) := by
  by_cases hreceipt : a = .service (.resume job (.receipt true))
  · obtain rfl := hreceipt
    obtain ⟨_, world, hworld, rfl⟩ := step_service hstep
    obtain ⟨f, g, effects, hf, hresume, _⟩ := World.step_resume hworld
    obtain ⟨built, hash, hpc⟩ := Frame.resume_receipt hresume
    -- it is waited for, and not confirmed yet
    have hfits := (hinv job).fits f hf
    rw [hpc] at hfits
    obtain ⟨v, hv, hunconfirmed⟩ := Option.map_eq_some_iff.mp hfits
    have hafter : w.watchAfter s job (.resume job (.receipt true)) =
        some { v with confirmedAt := some w.elapsed } := by
      simp [watchAfter, hf, noted, hpc, hv]
    simp only [hafter, Option.some.injEq, forall_eq', Watch.outlasts_confirm_iff, inTime, hv,
      Option.all_some, forall_const]
  · refine iff_of_true ?_ (fun hsame => absurd hsame hreceipt)
    intro v' hv'
    cases a with
    | service action =>
      obtain ⟨hpermits, world, _, rfl⟩ := step_service hstep
      exact watchAfter_outlasts (hinv job).fits (h job) hpermits
        (fun hsame => hreceipt (congrArg TimedAction.service hsame)) hv'
    | tick ms =>
      cases hstep
      exact h job v' hv'
    | respondArrives answered output =>
      obtain ⟨v, hv, rfl⟩ := Option.map_eq_some_iff.mp hstep
      exact update_outlasts h hv hv' rfl rfl
    | watchExpires expired error =>
      obtain ⟨v, hv, hwatch⟩ := Option.bind_eq_some_iff.mp hstep
      obtain ⟨_, heq⟩ := Option.ite_none_right_eq_some.mp hwatch
      obtain rfl := Option.some.inj heq
      exact update_outlasts h hv hv' rfl rfl

/-- In a run from the start of the service, whatever is answered and at whatever time, no wait
    expires before the respond budget of its job, and no job is failed over a respond that
    arrives within it, exactly when every receipt is there early enough. -/
theorem inTime_iff (s : Setup) (now : Millis) (as : List TimedAction) :
    Always (step s) (RespondsInTime s) (new s now) as ↔
      Along (step s) (fun w a => w.inTime s a = true) (new s now) as := by
  refine always_iff_along_of (J := Inv s) (fun _ _ _ => inv_step) ?_ as (inv_new s now) ?_
  · intro w a w' hinv h hstep
    rw [respondsInTime_iff hinv] at h
    rw [respondsInTime_iff (inv_step hinv hstep)]
    constructor
    · intro hall
      -- only the receipt of a job can come too late
      by_cases hreceipt : ∃ job, a = .service (.resume job (.receipt true))
      · obtain ⟨job, hreceipt⟩ := hreceipt
        exact (outlasts_step_iff hinv h hstep job).mp (hall job) hreceipt
      · unfold inTime
        split
        · exact absurd ⟨_, rfl⟩ hreceipt
        · rfl
    · exact fun hguard job => (outlasts_step_iff hinv h hstep job).mpr fun _ => hguard
  · rw [respondsInTime_iff (inv_new s now)]
    exact fun _ _ hv => nomatch hv

/-! ## A slow broadcast -/

/-- What the wait is rejected with when it has timed out. -/
def timedOut : JsError := { message := "respondBidirectionalEvent timed out" }

/-- One job whose signature and receipt take all of their budgets, and whose broadcast is answered
    a minute after its signature. The respond arrives half a minute before its deadline. -/
def slowBroadcastRun : List TimedAction :=
  (World.respondedRun.take 13).map .service ++
    [.tick 300000, .service (.resume 0 (.rsv ⟨"r", "s", 0⟩)), .service (.resume 0 .resume),
      .tick 60000, .service (.resume 0 (.txHash "0xab")), .tick 600000,
      .service (.resume 0 (.receipt true)), .tick 2040000, .watchExpires 0 timedOut,
      .service (.resume 0 (.throw timedOut)), .tick 30000, .respondArrives 0 (.text "0x01")]

/-- The service it leaves. -/
def slowBroadcast : TimedService :=
  (exec (step World.sampleSetup) (new World.sampleSetup 0) slowBroadcastRun).getD
    (new World.sampleSetup 0)

/-- The wait expires at 3000000 ms, the respond arrives at 3030000 ms, within its budget of
    2100000 ms from 960000 ms, and the job has been failed. -/
theorem slow_broadcast_expires :
    exec (step World.sampleSetup) (new World.sampleSetup 0) slowBroadcastRun =
        some slowBroadcast ∧
      (∃ v, slowBroadcast.watches 0 = some v ∧ v.expiry World.sampleSetup = 3000000 ∧
        v.confirmedAt = some 960000 ∧ v.arrivedAt = some 3030000) ∧
      960000 + World.sampleSetup.env.bidirectional.respondTimeoutMs = 3060000 ∧
      slowBroadcast.shutdown = false ∧
      .respondTimeout ∈ failures (slowBroadcast.world.callsOf 0) ∧
      ¬ Always (step World.sampleSetup) (RespondsInTime World.sampleSetup)
        (new World.sampleSetup 0) slowBroadcastRun := by
  have hexec : exec (step World.sampleSetup) (new World.sampleSetup 0) slowBroadcastRun =
      some slowBroadcast := exec_getD (by decide +kernel) _
  have hwatch : ∃ v, slowBroadcast.watches 0 = some v ∧ v.expiry World.sampleSetup = 3000000 ∧
      v.confirmedAt = some 960000 ∧ v.arrivedAt = some 3030000 :=
    ⟨_, rfl, by decide +kernel, by decide +kernel, by decide +kernel⟩
  have hfailed : .respondTimeout ∈ failures (slowBroadcast.world.callsOf 0) := by decide +kernel
  refine ⟨hexec, hwatch, by decide +kernel, by decide +kernel, hfailed, ?_⟩
  intro h
  obtain ⟨v, hv, _, hconfirmed, harrived⟩ := hwatch
  have hwithin : 3030000 < 960000 + World.sampleSetup.env.bidirectional.respondTimeoutMs := by
    decide +kernel
  -- the property fails in the last state of the run, where the respond had arrived
  exact (h.last hexec).unfailed 0 v _ _ hv hconfirmed harrived hwithin
    (by decide +kernel) hfailed

end TimedService

end ContractPinger
