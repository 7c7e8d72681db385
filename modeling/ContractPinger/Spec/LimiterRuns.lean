import ContractPinger.ForStd.Machine
import ContractPinger.Model.Server
import ContractPinger.Spec.ArrivalSlots

/-!
# The limiter over whole runs

A run of the limiter is any sequence of calls of its three methods whose instants do not go
back. Beside the limiter the run keeps the full log of the calls it let pass, which the
limiter itself forgets as it goes.

## Key results

- `LimiterRun.decides_on_history`: each answer is the one a limiter with the whole log gives
- `LimiterRun.retryAfterMs_exact`: the delay reported is the least one after which a call
  passes; a zero limit reports a whole window and lets nothing pass
-/

namespace ContractPinger

open SlidingWindow Machine

/-- The methods of the limiter. -/
inductive LimiterMethod
  | tryAcquire
  | retryAfterMs
  | used
deriving DecidableEq, Repr

/-- A call of a method, with its `now`. -/
structure LimiterCall where
  method : LimiterMethod
  now : Millis
deriving DecidableEq, Repr

/-- A limiter that has been called, with every call it let pass. -/
structure LimiterRun where
  limiter : RateLimiter
  /-- The instant of the last call. -/
  clock : Option Millis := none
  accepted : List Millis := []
deriving DecidableEq, Repr

namespace LimiterRun

/-- A limiter that has not been called. -/
def new (limit : Nat) (windowMs : Millis) : LimiterRun := { limiter := { limit, windowMs } }

/-- No call was made after `now`. -/
def Until (run : LimiterRun) (now : Millis) : Prop := ∀ last ∈ run.clock, last ≤ now

instance (run : LimiterRun) (now : Millis) : Decidable (run.Until now) :=
  inferInstanceAs (Decidable (∀ last ∈ run.clock, last ≤ now))

/-- The limiter after a call, and the log. -/
def call (run : LimiterRun) (c : LimiterCall) : LimiterRun :=
  match c.method with
  | .tryAcquire =>
    let answer := run.limiter.tryAcquire c.now
    { limiter := answer.2
      clock := some c.now
      accepted := if answer.1 then run.accepted ++ [c.now] else run.accepted }
  | .retryAfterMs =>
    { run with limiter := (run.limiter.retryAfterMs c.now).2, clock := some c.now }
  | .used => { run with limiter := (run.limiter.used c.now).2, clock := some c.now }

/-- One call; the clock does not go back. -/
def step (run : LimiterRun) (c : LimiterCall) : Option LimiterRun :=
  if run.Until c.now then some (run.call c) else none

/-- The accepted calls of the window that ends at `now`. -/
def acceptedWithin (run : LimiterRun) (now : Millis) : Nat :=
  run.accepted.countP fun t => decide (now - run.limiter.windowMs < t)

variable {run run' : LimiterRun} {c : LimiterCall} {now now' : Millis}
  {limit : Nat} {windowMs : Millis}

/-- A call is made at an instant that is not past. -/
theorem step_eq_some_iff : run.step c = some run' ↔ run.Until c.now ∧ run.call c = run' := by
  unfold step
  split <;> simp_all

/-- What a call does: the limiter is pruned, and a call let pass is recorded in both logs. -/
theorem call_cases (run : LimiterRun) (c : LimiterCall) :
    (run.call c = { run with limiter := run.limiter.prune c.now, clock := some c.now }) ∨
    (∃ limiter, c.method = .tryAcquire ∧ run.limiter.tryAcquire c.now = (true, limiter) ∧
      run.call c =
        { limiter, clock := some c.now, accepted := run.accepted ++ [c.now] }) := by
  unfold call
  cases hm : c.method with
  | tryAcquire =>
    cases ha : run.limiter.tryAcquire c.now with
    | mk passed limiter =>
      cases passed with
      | true => exact .inr ⟨limiter, rfl, rfl, by simp⟩
      | false =>
        -- refused: the limiter is only pruned
        have hprune := (RateLimiter.tryAcquire_false ha).1
        subst hprune
        exact .inl (by simp)
  | retryAfterMs => exact .inl rfl
  | used => exact .inl rfl

/-- The limiter knows of every accepted call that may still count, whenever it is asked next. -/
def Remembers (run : LimiterRun) : Prop :=
  ∀ now, run.Until now → run.limiter.Remembers run.accepted now

/-- A limiter never called remembers nothing. -/
theorem remembers_new (h : 0 < windowMs) : (new limit windowMs).Remembers :=
  fun now _ => RateLimiter.remembers_new h now

/-- Whatever comes after a call comes no earlier. -/
theorem clock_le (hlater : (run.call c).Until now) : c.now ≤ now := by
  refine hlater c.now ?_
  rcases call_cases run c with hc | ⟨_, _, _, hc⟩ <;> rw [hc] <;> rfl

/-- A call keeps the memory. -/
theorem Remembers.of_step (h : run.Remembers) (hs : run.step c = some run') : run'.Remembers := by
  obtain ⟨huntil, rfl⟩ := step_eq_some_iff.mp hs
  intro now hnow
  have hle := clock_le hnow
  have hr := h c.now huntil
  rcases call_cases run c with hc | ⟨limiter, _, hpass, hc⟩
  · rw [hc]
    exact hr.prune.later hle
  · rw [hc]
    exact (hr.tryAcquire hpass).later hle

/-- So does a run. -/
theorem Remembers.of_reachable (h : run.Remembers) (hr : Reachable step run run') :
    run'.Remembers :=
  hr.invariant h fun _ _ _ hI _ hs => hI.of_step hs

/-- The limit and the window are fixed. -/
theorem step_limiter (hs : run.step c = some run') :
    run'.limiter.limit = run.limiter.limit ∧ run'.limiter.windowMs = run.limiter.windowMs := by
  obtain ⟨-, rfl⟩ := step_eq_some_iff.mp hs
  rcases call_cases run c with hc | ⟨limiter, _, hpass, hc⟩
  · rw [hc]
    exact ⟨rfl, rfl⟩
  · rw [hc, (RateLimiter.tryAcquire_true hpass).1]
    exact ⟨rfl, rfl⟩

/-- No run changes the limit or the window. -/
theorem reachable_limiter (hr : Reachable step run run') :
    run'.limiter.limit = run.limiter.limit ∧ run'.limiter.windowMs = run.limiter.windowMs := by
  refine hr.invariant (I := fun r => r.limiter.limit = run.limiter.limit ∧
    r.limiter.windowMs = run.limiter.windowMs) ⟨rfl, rfl⟩ ?_
  rintro r a r' ⟨hlimit, hwindow⟩ _ hs
  obtain ⟨hlimit', hwindow'⟩ := step_limiter hs
  exact ⟨hlimit'.trans hlimit, hwindow'.trans hwindow⟩

/-! ## Decisions on the whole history -/

/-- The slots in use are the calls accepted within the window. -/
theorem length_prune_hits (h : run.Remembers) (hnow : run.Until now) :
    (run.limiter.prune now).hits.length = run.acceptedWithin now := by
  rw [(h now hnow).prune_hits, within, ← List.countP_eq_length_filter]
  rfl

/-- A call is let through while fewer than the limit were accepted within the window. -/
theorem tryAcquire_iff (h : run.Remembers) (hnow : run.Until now) :
    (run.limiter.tryAcquire now).1 = true ↔ run.acceptedWithin now < run.limiter.limit := by
  rw [← length_prune_hits h hnow]
  cases ha : run.limiter.tryAcquire now with
  | mk passed limiter =>
    cases passed with
    | true =>
      have hroom := (RateLimiter.tryAcquire_true ha).2
      simp [hroom]
    | false =>
      have hfull := (RateLimiter.tryAcquire_false ha).2
      simp [hfull]

/-- `used` reports that number. -/
theorem used_eq (h : run.Remembers) (hnow : run.Until now) :
    (run.limiter.used now).1 = run.acceptedWithin now :=
  length_prune_hits h hnow

/-- The limiter that forgets answers as one that keeps the whole log: a call passes exactly
    when the window before it holds fewer than `limit` accepted calls, `used` is their
    number, and so no window ever holds more than `limit`. -/
theorem decides_on_history (hwindow : 0 < windowMs)
    (hr : Reachable step (new limit windowMs) run) :
    (∀ now, run.Until now →
      ((run.limiter.tryAcquire now).1 = true ↔
        (run.accepted.countP fun t => decide (now - windowMs < t)) < limit) ∧
      (run.limiter.used now).1 = run.accepted.countP fun t => decide (now - windowMs < t)) ∧
    ∀ x, (run.accepted.countP fun t => decide (x < t ∧ t ≤ x + windowMs)) ≤ limit := by
  have hmem : run.Remembers := (remembers_new hwindow).of_reachable hr
  obtain ⟨hlimit, hwidth⟩ := reachable_limiter hr
  have hlimit : run.limiter.limit = limit := hlimit
  have hwidth : run.limiter.windowMs = windowMs := hwidth
  constructor
  · intro now hnow
    have hpass := tryAcquire_iff hmem hnow
    have hused := used_eq hmem hnow
    rw [acceptedWithin, hwidth] at hpass hused
    rw [hlimit] at hpass
    exact ⟨hpass, hused⟩
  · intro x
    -- any instant after the last call will do to read the bound off
    have hnow : run.Until (run.clock.getD 0) := by
      intro last hlast
      rw [Option.mem_def.mp hlast]
      exact Int.le_refl last
    have hbounded := (hmem _ hnow).bounded x
    rw [hlimit, hwidth] at hbounded
    exact hbounded

/-- A limiter of two calls in any ten milliseconds, asked three times. -/
theorem decides_on_history_of_three :
    let run := LimiterRun.new 2 10 |>.call ⟨.tryAcquire, 0⟩ |>.call ⟨.tryAcquire, 4⟩
      |>.call ⟨.retryAfterMs, 5⟩
    (∀ now, run.Until now →
      ((run.limiter.tryAcquire now).1 = true ↔
        (run.accepted.countP fun t => decide (now - 10 < t)) < 2) ∧
      (run.limiter.used now).1 = run.accepted.countP fun t => decide (now - 10 < t)) ∧
    ∀ x, (run.accepted.countP fun t => decide (x < t ∧ t ≤ x + 10)) ≤ 2 := by
  have hexec : exec step (new 2 10) [⟨.tryAcquire, 0⟩, ⟨.tryAcquire, 4⟩, ⟨.retryAfterMs, 5⟩] =
      some (new 2 10 |>.call ⟨.tryAcquire, 0⟩ |>.call ⟨.tryAcquire, 4⟩
        |>.call ⟨.retryAfterMs, 5⟩) := by decide +kernel
  exact decides_on_history (by decide) (reachable_of_exec hexec)

/-! ## The delay it reports -/

/-- Calls that let nothing pass leave the log alone, so the window only shrinks. -/
theorem tryAcquire_later_iff (h : run'.Remembers) (hlimiter :
      run'.limiter.limit = run.limiter.limit ∧ run'.limiter.windowMs = run.limiter.windowMs)
    (hquiet : run'.accepted = run.accepted) (hnow' : run'.Until now') :
    (run'.limiter.tryAcquire now').1 = true ↔
      (within run.limiter.windowMs now' run.accepted).length < run.limiter.limit := by
  rw [tryAcquire_iff h hnow', acceptedWithin, hquiet, hlimiter.1, hlimiter.2, within,
    List.countP_eq_length_filter]

/-- With a positive limit, the delay reported is the wait the whole log imposes. -/
theorem retryAfterMs_eq_delay (h : run.Remembers) (hnow : run.Until now)
    (hlimit : 0 < run.limiter.limit) :
    (run.limiter.retryAfterMs now).1 =
      delay run.limiter.limit run.limiter.windowMs now run.accepted := by
  show (if run.limiter.limit ≤ 0 then _ else _) = _
  rw [if_neg (by omega), delay, ← (h now hnow).prune_hits]
  rfl

/-- Waiting the whole seconds of the header is waiting long enough. -/
theorem le_ceilSeconds (ms : Millis) : ms ≤ ceilSeconds ms * 1000 := by
  have hceil : ∀ x : Int, x ≤ -(-x / 1000) * 1000 := by omega
  exact hceil ms

/-- The delay `retryAfterMs` answers is exact: as long as no call passes in the meantime, a
    call passes after that long and not before, so the seconds of a `Retry-After` header
    are enough. A zero limit answers a whole window, and no call ever passes. -/
theorem retryAfterMs_exact (hwindow : 0 < windowMs)
    (hr : Reachable step (new limit windowMs) run) (hnow : run.Until now) :
    let d := (run.limiter.retryAfterMs now).1
    (1 ≤ limit →
      0 ≤ d ∧ d ≤ windowMs ∧
      ∀ run', Reachable step (run.call ⟨.retryAfterMs, now⟩) run' →
        run'.accepted = run.accepted →
        (∀ e, 0 ≤ e → run'.Until (now + e) →
          ((run'.limiter.tryAcquire (now + e)).1 = true ↔ d ≤ e)) ∧
        ∀ e, ceilSeconds d * 1000 ≤ e → run'.Until (now + e) →
          (run'.limiter.tryAcquire (now + e)).1 = true) ∧
    (limit = 0 → d = windowMs ∧ run.accepted = []) := by
  intro d
  have hmem : run.Remembers := (remembers_new hwindow).of_reachable hr
  obtain ⟨hlimit, hwidth⟩ := reachable_limiter hr
  have hlimit : run.limiter.limit = limit := hlimit
  have hwidth : run.limiter.windowMs = windowMs := hwidth
  constructor
  · intro hpos
    have hmemNow := hmem now hnow
    -- the delay answered is the one that the whole log imposes
    have hd : d = delay run.limiter.limit run.limiter.windowMs now run.accepted :=
      retryAfterMs_eq_delay hmem hnow (by omega)
    have hnonneg : 0 ≤ d := hd ▸ delay_nonneg _ _ _ _
    have hle : d ≤ windowMs := by
      rw [hd, ← hwidth]
      exact delay_le hmemNow.window (by omega) hmemNow.past
    refine ⟨hnonneg, hle, fun run' hr' hquiet => ?_⟩
    have hcall : run.step ⟨.retryAfterMs, now⟩ = some (run.call ⟨.retryAfterMs, now⟩) :=
      step_eq_some_iff.mpr ⟨hnow, rfl⟩
    have hmem' : run'.Remembers := (hmem.of_step hcall).of_reachable hr'
    -- the calls in between change neither the limit nor the window
    have hlimiter := reachable_limiter ((ReachableUnder.tail _ .refl trivial hcall).trans hr')
    have hiff : ∀ e, 0 ≤ e → run'.Until (now + e) →
        ((run'.limiter.tryAcquire (now + e)).1 = true ↔ d ≤ e) := by
      intro e he huntil
      rw [tryAcquire_later_iff hmem' hlimiter hquiet huntil, hd]
      exact room_iff_delay_le (by omega) hmemNow.ordered hmemNow.past hmemNow.bounded he
    refine ⟨hiff, fun e he huntil => ?_⟩
    -- rounding up to whole seconds only waits longer
    have henough : d ≤ e := Int.le_trans (le_ceilSeconds d) he
    exact (hiff e (Int.le_trans hnonneg henough) huntil).mpr henough
  · intro hzero
    constructor
    · show (if run.limiter.limit ≤ 0 then run.limiter.windowMs else _) = windowMs
      rw [if_pos (by omega), hwidth]
    · -- a log bounded by zero in every window has no entry
      have hbounded := (hmem now hnow).bounded
      rw [hlimit, hzero, hwidth] at hbounded
      exact hbounded.eq_nil hwindow

/-- One call in ten milliseconds: after the one at 3, a caller at 5 has 8 to wait. -/
theorem retryAfterMs_exact_of_one :
    let run := (new 1 10).call ⟨.tryAcquire, 3⟩
    (run.limiter.retryAfterMs 5).1 = 8 ∧
    ∀ e, 0 ≤ e →
      (((run.call ⟨.retryAfterMs, 5⟩).limiter.tryAcquire (5 + e)).1 = true ↔ 8 ≤ e) := by
  intro run
  have hexec : exec step (new 1 10) [⟨.tryAcquire, 3⟩] = some run := by decide +kernel
  have huntil : run.Until 5 := by decide
  have hexact := (retryAfterMs_exact (by decide) (reachable_of_exec hexec) huntil).1 (by decide)
  have hdelay : (run.limiter.retryAfterMs 5).1 = 8 := by decide +kernel
  refine ⟨hdelay, fun e he => ?_⟩
  -- the later call comes after the last one that was accepted
  have hlater : (run.call ⟨.retryAfterMs, 5⟩).Until (5 + e) := by
    intro last hlast
    cases hlast
    exact Int.le_add_of_nonneg_right he
  rw [(hexact.2.2 _ .refl rfl).1 e he hlater, hdelay]

end LimiterRun

end ContractPinger
