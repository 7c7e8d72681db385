import ContractPinger.Spec.PoolSteps

/-!
# Addresses too poor for their transaction

The preflight marks a worker underfunded against what the transaction needed, and no
underfunded worker is leased. The loops that refresh balances measure against the static
minimum instead, so a balance between the two brings the address back. Every shortfall the
history tells of is followed here from the failure to the balance that makes up for it.

## Key results

- `shelfInv_step`: as long as no refresh reads a balance in between, the worker stays shelved
- `out_of_rotation`: the address is not leased until the threshold has been read
- `refresh_readmits`: a balance in between puts it back into the rotation
-/

namespace ContractPinger

open Machine

/-! ## Shortfalls -/

/-- The call records a balance of the path that reaches the threshold. -/
def Effect.reaches (path : String) (threshold : Nat) : Effect → Bool
  | .setBalance p balance _ => p == path && decide (threshold ≤ balance)
  | _ => false

/-- What a list of calls tells of the addresses' funds. -/
structure Funds where
  /-- The last call, if it set a balance: its path and threshold. -/
  marked : Option (String × Nat) := none
  /-- The paths that failed a preflight, with the threshold that has not been read since. -/
  shortfalls : List (String × Nat) := []
deriving DecidableEq, Repr

/-- One more call. -/
def Funds.see (funds : Funds) : Effect → Funds
  | .setBalance path balance threshold =>
    { marked := some (path, threshold)
      shortfalls := funds.shortfalls.filter fun e => e.1 != path || decide (balance < e.2) }
  | .fail _ .preflightUnderfunded _ =>
    { shortfalls := funds.shortfalls ++ funds.marked.toList }
  | _ => { funds with marked := none }

namespace Funds

variable {funds : Funds} {effects : List Effect} {e : String × Nat}

/-- A call that marks nothing and fails nothing is no news of funds. -/
theorem see_quiet {effect : Effect} (hmark : effect.mark = none)
    (hfails : effect.failsPreflight = false) :
    (funds.see effect).shortfalls = funds.shortfalls := by
  cases effect with
  | setBalance path balance threshold => cases hmark
  | fail job reason error => cases reason <;> first | rfl | cases hfails
  | _ => rfl

/-- Nor is a stretch of them. -/
theorem sees_unmarked (h : Unmarked effects) :
    (effects.foldl see funds).shortfalls = funds.shortfalls := by
  induction effects generalizing funds with
  | nil => rfl
  | cons effect rest ih =>
    have hrest : Unmarked rest := (Bool.and_eq_true_iff.mp h).2
    have hmark := h.mark List.mem_cons_self
    have hfails := h.failsPreflight List.mem_cons_self
    rw [List.foldl_cons, ih hrest, see_quiet hmark hfails]

/-- A shortfall stays until its threshold is read. -/
theorem mem_sees (he : e ∈ funds.shortfalls)
    (hbelow : ∀ effect ∈ effects, effect.reaches e.1 e.2 = false) :
    e ∈ (effects.foldl see funds).shortfalls := by
  induction effects generalizing funds with
  | nil => exact he
  | cons effect rest ih =>
    rw [List.foldl_cons]
    apply ih
    · cases effect with
      | setBalance path balance threshold =>
        rw [see, List.mem_filter]
        refine ⟨he, ?_⟩
        have hbelow := hbelow _ List.mem_cons_self
        -- a balance of its own path stays below the threshold; another path's is no matter
        by_cases hpath : e.1 = path
        · simp only [Effect.reaches, hpath, beq_self_eq_true, Bool.true_and,
            decide_eq_false_iff_not] at hbelow
          have hlt : balance < e.2 := by omega
          simp [hlt]
        · simp [hpath]
      | fail job reason error =>
        cases reason <;> first | exact he | exact List.mem_append_left _ he
      | _ => exact he
    · exact fun e' he' => hbelow e' (List.mem_cons_of_mem _ he')

end Funds

namespace World

/-- The shortfalls of a run: the addresses that failed a preflight and the thresholds that
    have not been read since. -/
def shortfalls (w : World) : List (String × Nat) :=
  ((w.calls.map Prod.snd).foldl Funds.see {}).shortfalls

/-- A job failed its preflight on `path`, which held less than `threshold`, and no balance of
    at least `threshold` has been read since. -/
def TooPoor (w : World) (path : String) (threshold : Nat) : Prop :=
  ∃ before job balance error after,
    w.calls = before ++
      [(.job job, .setBalance path balance threshold),
        (.job job, .fail job .preflightUnderfunded error)] ++ after ∧
    balance < threshold ∧
    ∀ call ∈ after, call.2.reaches path threshold = false

/-- A path that is too poor is on the list of shortfalls. -/
theorem TooPoor.mem_shortfalls {w : World} {path : String} {threshold : Nat}
    (h : w.TooPoor path threshold) : (path, threshold) ∈ w.shortfalls := by
  obtain ⟨before, job, balance, error, after, hcalls, _, hafter⟩ := h
  rw [shortfalls, hcalls, List.map_append, List.map_append, List.foldl_append, List.foldl_append]
  apply Funds.mem_sees
  · exact List.mem_append_right _ List.mem_cons_self
  · intro effect hmem
    obtain ⟨call, hcall, rfl⟩ := List.mem_map.mp hmem
    exact hafter call hcall

/-- What the calls of one stretch of code do to the shortfalls. -/
theorem shortfalls_calls {w w' : World} {who : Proc} {effects : List Effect}
    (h : w'.calls = w.calls ++ effects.map fun effect => (who, effect)) : ∃ funds : Funds,
      funds.shortfalls = w.shortfalls ∧
        w'.shortfalls = (effects.foldl Funds.see funds).shortfalls := by
  -- the fold over the history, up to these calls
  refine ⟨(w.calls.map Prod.snd).foldl Funds.see {}, rfl, ?_⟩
  rw [shortfalls, h, List.map_append, List.foldl_append, List.map_map]
  have hid : effects.map (Prod.snd ∘ fun effect => (who, effect)) = effects := List.map_id effects
  rw [hid]

end World

/-! ## Shelved workers -/

namespace WorkerPool

variable {pool leased : WorkerPool} {path : String} {now : Millis} {effects : List Effect}

/-- The worker is not leased, and will not be while it is underfunded. -/
def Shelved (pool : WorkerPool) (path : String) : Prop :=
  ∀ w ∈ pool.workers, w.path = path → w.busy = false ∧ w.underfunded = true

/-- A worker stays shelved that is changed to one idle and underfunded. -/
theorem Shelved.modifyWorker (h : pool.Shelved path) {p : String} {f : Worker → Worker}
    (hpath : ∀ w, (f w).path = w.path)
    (hkeep : ∀ w, w.path = p → p = path → w.busy = false → w.underfunded = true →
      (f w).busy = false ∧ (f w).underfunded = true) :
    (pool.modifyWorker p f).Shelved path := by
  intro w hw
  rcases List.mem_modifyFirst hw with hw | ⟨v, hfind, rfl⟩
  · exact h w hw
  · intro hv
    have hp : v.path = p := by simpa using List.find?_some hfind
    rw [hpath] at hv
    obtain ⟨hbusy, hpoor⟩ := h v (List.mem_of_find?_eq_some hfind) hv
    exact hkeep v hp (hp.symm.trans hv) hbusy hpoor

/-- An underfunded worker is not acquired. -/
theorem Shelved.acquire {p : String} (h : pool.Shelved path)
    (hok : pool.acquire now = .ok (p, leased)) : leased.Shelved path := by
  obtain ⟨candidate, _, _, rfl⟩ := acquire_ok hok
  intro w hw
  rcases List.mem_modifyFirst hw with hw | ⟨v, hfind, rfl⟩
  · exact h w hw
  · intro hv
    have havailable := List.find?_some hfind
    obtain ⟨_, hpoor⟩ := h v (List.mem_of_find?_eq_some hfind) hv
    -- the one acquired is available, and this one is underfunded
    simp [Worker.available, hpoor] at havailable

/-- A shelved worker is not handed off. -/
theorem Shelved.handOff (h : pool.Shelved path) (now : Millis) :
    (pool.handOff now).Shelved path := by
  refine handOff_invariant (fun pool => pool.Shelved path) pool now h ?_
  intro pool leased call rest p hshelved _ hok
  have hleased : leased.Shelved path := hshelved.acquire hok
  exact hleased

/-- Only a balance that passes the check takes a worker off the shelf. -/
theorem Shelved.onPool (h : pool.Shelved path) {effect : Effect}
    (hpoor : ∀ balance minimum, effect = .setBalance path balance minimum → balance < minimum)
    (now : Millis) : (effect.onPool now pool).Shelved path := by
  cases effect with
  | acquireWithin job =>
    show (pool.acquireWithin job now).Shelved path
    unfold WorkerPool.acquireWithin
    split
    · rename_i leased hok
      have hleased : leased.Shelved path := h.acquire hok
      exact hleased
    · exact h
    · exact h
  | setBalance p balance minimum =>
    refine h.modifyWorker (fun _ => rfl) ?_
    rintro w _ rfl hbusy _
    have hlt := hpoor balance minimum rfl
    -- the balance read is below the minimum it is measured against
    exact ⟨hbusy, decide_eq_true hlt⟩
  | quarantine p nonce => exact h.modifyWorker (fun _ => rfl) fun _ _ _ hb hu => ⟨hb, hu⟩
  | reconcile p hasOutstanding =>
    refine h.modifyWorker (fun w => ?_) fun w _ _ hb hu => ?_
    · split <;> rfl
    · split <;> exact ⟨hb, hu⟩
  | release p =>
    refine Shelved.handOff ?_ now
    exact h.modifyWorker (fun _ => rfl) fun _ _ _ _ hu => ⟨rfl, hu⟩
  | update _ _ => exact h
  | fail _ _ _ => exact h
  | began _ _ => exact h

/-- It stays shelved through balances below what was asked of them. -/
theorem Shelved.onPools (h : pool.Shelved path)
    (hpoor : ∀ balance minimum, .setBalance path balance minimum ∈ effects → balance < minimum)
    (now : Millis) :
    (effects.foldl (fun pool effect => effect.onPool now pool) pool).Shelved path := by
  induction effects generalizing pool with
  | nil => exact h
  | cons effect rest ih =>
    rw [List.foldl_cons]
    apply ih
    · apply h.onPool
      rintro balance minimum rfl
      exact hpoor balance minimum List.mem_cons_self
    · intro balance minimum hmem
      exact hpoor balance minimum (List.mem_cons_of_mem _ hmem)

/-- A worker that is released underfunded goes on the shelf, past whoever is queued. -/
theorem shelved_release (hnd : pool.paths.Nodup) {balance threshold : Nat}
    (hpoor : balance < threshold) (now : Millis) :
    ((pool.setBalance path balance threshold).release path now).Shelved path := by
  have hnd' : (pool.setBalance path balance threshold).paths.Nodup := by
    rw [show (pool.setBalance path balance threshold).paths = pool.paths from
      onPool_paths (.setBalance path balance threshold) now pool]
    exact hnd
  refine Shelved.handOff ?_ now
  intro w hw hpath
  -- the paths are distinct, so both assignments are to the one worker
  rw [WorkerPool.modifyWorker, List.modifyFirst_eq_map hnd'] at hw
  obtain ⟨v, hv, rfl⟩ := List.mem_map.mp hw
  rw [WorkerPool.setBalance, WorkerPool.modifyWorker, List.modifyFirst_eq_map hnd] at hv
  obtain ⟨u, _, rfl⟩ := List.mem_map.mp hv
  by_cases hu : u.path = path
  · simp [hu, hpoor]
  · simp [hu] at hpath

end WorkerPool

/-- The balance an action answers, and whom. -/
def Action.balance : Action → Option (Proc × Nat)
  | .resume job (.balance balance) => some (.job job, balance)
  | .resumeRequest request (.balance balance) => some (.request request, balance)
  | _ => none

namespace World

/-- The path whose balance a process is refreshing. -/
def refreshingPath (w : World) : Proc → Option String
  | .job id =>
    match w.frames[id]?.map Frame.pc with
    | some (.refreshingUnderfunded (path :: _)) => some path
    | _ => none
  | .request id =>
    match w.requests[id]? with
    | some (.refreshing (path :: _)) => some path
    | _ => none

/-- A balance that a refresh reads and that clears the minimum clears the threshold of every
    shortfall of its address too. -/
def refillsEnough (w : World) (s : Setup) (a : Action) : Bool :=
  match a.balance with
  | some (who, balance) =>
    match w.refreshingPath who with
    | some path =>
      decide (balance < s.env.bidirectional.minBalanceWei) ||
        w.shortfalls.all fun e => e.1 != path || decide (e.2 ≤ balance)
    | none => true
  | none => true

/-- The guard of a run. -/
def RefillsEnough (s : Setup) (w : World) (a : Action) : Prop := w.refillsEnough s a = true

instance (s : Setup) (w : World) (a : Action) : Decidable (RefillsEnough s w a) :=
  inferInstanceAs (Decidable (w.refillsEnough s a = true))

/-- Whoever has a shortfall is shelved. -/
def ShelfInv (w : World) : Prop := ∀ e ∈ w.shortfalls, w.pool.Shelved e.1

namespace ShelfInv

variable {s : Setup} {w w' : World} {effects : List Effect}

/-- A stretch of code that sets no balance and fails no preflight. -/
theorem quiet (h : ShelfInv w)
    (hpool : w'.pool = effects.foldl (fun pool effect => effect.onPool w.now pool) w.pool)
    (hbalances : ∀ path balance minimum, .setBalance path balance minimum ∉ effects)
    (hshortfalls : w'.shortfalls = w.shortfalls) : ShelfInv w' := by
  intro e he
  rw [hshortfalls] at he
  rw [hpool]
  apply (h e he).onPools
  intro balance minimum hmem
  exact absurd hmem (hbalances e.1 balance minimum)

/-- A refresh of a balance. -/
theorem refreshed (h : ShelfInv w) {a : Action} {path : String} {balance : Nat} (who : Proc)
    (hread : a.balance = some (who, balance)) (hwho : w.refreshingPath who = some path)
    (hguard : RefillsEnough s w a)
    (hpool : w'.pool = w.pool.setBalance path balance s.env.bidirectional.minBalanceWei)
    (hcalls : w'.calls = w.calls ++
      [(who, .setBalance path balance s.env.bidirectional.minBalanceWei)]) : ShelfInv w' := by
  have hcalls : w'.calls = w.calls ++
      [Effect.setBalance path balance s.env.bidirectional.minBalanceWei].map
        fun effect => (who, effect) := hcalls
  obtain ⟨funds, hfunds, hshortfalls⟩ := shortfalls_calls hcalls
  have hshortfalls : w'.shortfalls =
      funds.shortfalls.filter fun e => e.1 != path || decide (balance < e.2) := hshortfalls
  rw [hfunds] at hshortfalls
  intro e he
  rw [hshortfalls, List.mem_filter] at he
  obtain ⟨hold, hbelow⟩ := he
  rw [hpool]
  have hkeep : (Effect.onPool w.now w.pool
      (.setBalance path balance s.env.bidirectional.minBalanceWei)).Shelved e.1 := by
    apply (h e hold).onPool
    intro balance' minimum heq
    cases heq
    simp only [RefillsEnough, refillsEnough, hread, hwho, Bool.or_eq_true, decide_eq_true_eq,
      List.all_eq_true] at hguard
    -- below the minimum it stays marked; otherwise it clears every shortfall
    rcases hguard with hlt | hcleared
    · exact hlt
    · have hcleared := hcleared e hold
      simp only [bne_self_eq_false, Bool.false_eq_true, false_or] at hcleared
      simp only [bne_self_eq_false, Bool.false_or, decide_eq_true_eq] at hbelow
      omega
  exact hkeep

/-- A job fails its preflight: its worker goes on the shelf as it is released. -/
theorem tooPoor (h : ShelfInv w) (hnd : w.pool.paths.Nodup) {who : Proc} {job : Nat} {path : String}
    {balance threshold : Nat} {error : JobError} (hpoor : balance < threshold)
    (hpool : w'.pool = (w.pool.setBalance path balance threshold).release path w.now)
    (hcalls : w'.calls = w.calls ++
      [Effect.setBalance path balance threshold, .fail job .preflightUnderfunded error,
        .release path].map fun effect => (who, effect)) : ShelfInv w' := by
  obtain ⟨funds, hfunds, hshortfalls⟩ := shortfalls_calls hcalls
  have hshortfalls : w'.shortfalls =
      (funds.shortfalls.filter fun e => e.1 != path || decide (balance < e.2)) ++
        [(path, threshold)] := hshortfalls
  rw [hfunds] at hshortfalls
  intro e he
  rw [hshortfalls] at he
  rw [hpool]
  rcases List.mem_append.mp he with hold | hnew
  · -- the shortfalls there were: the balance read is below the threshold, so nobody is readmitted
    have hshelved := h e (List.mem_of_mem_filter hold)
    have hmarked :
        (Effect.onPool w.now w.pool (.setBalance path balance threshold)).Shelved e.1 := by
      apply hshelved.onPool
      intro balance' minimum heq
      cases heq
      exact hpoor
    have hreleased : (Effect.onPool w.now (w.pool.setBalance path balance threshold)
        (.release path)).Shelved e.1 := by
      apply WorkerPool.Shelved.onPool hmarked
      exact fun _ _ heq => nomatch heq
    exact hreleased
  · rw [List.mem_singleton.mp hnew]
    exact WorkerPool.shelved_release hnd hpoor w.now

end ShelfInv

/-- Every step keeps the shelf, as long as a refill that is noticed is enough. -/
theorem shelfInv_step {s : Setup} {w w' : World} {a : Action} (hleases : w.LeaseInv)
    (haddresses : AddressInv s w) (h : ShelfInv w) (hguard : RefillsEnough s w a)
    (hstep : step s w a = some w') : ShelfInv w' := by
  have hnd := haddresses.paths_nodup
  cases step_pool hleases hstep with
  | same _ hworkers hcalls =>
    intro e he v hv
    rw [shortfalls, hcalls] at he
    rw [hworkers] at hv
    exact h e he v hv
  | derived _ derived hpool hcalls =>
    intro e he
    rw [shortfalls, hcalls] at he
    rw [hpool]
    refine applyAddresses_invariant (fun pool => pool.Shelved e.1) w.pool derived (h e he) ?_
    -- an address is neither a lease nor a mark
    intro pool path address hshelved
    exact hshelved.modifyWorker (fun _ => rfl) fun _ _ _ hbusy hpoor => ⟨hbusy, hpoor⟩
  | job job reply f f' effects hf _ hmarks hpool hcalls =>
    obtain ⟨funds, hfunds, hshortfalls⟩ := shortfalls_calls hcalls
    cases hmarks with
    | unmarked hmarks _ =>
      refine h.quiet hpool ?_ (by rw [hshortfalls, Funds.sees_unmarked hmarks, hfunds])
      intro path balance minimum hmem
      exact nomatch hmarks.mark hmem
    | reconciled _ _ _ _ _ _ heffects =>
      subst heffects
      exact h.quiet hpool (by simp) (hshortfalls.trans hfunds)
    | refreshed path rest balance hpc hread heffects =>
      subst heffects hread
      refine h.refreshed (.job job) rfl ?_ hguard hpool hcalls
      simp [refreshingPath, hf, hpc]
    | tooPoor path balance threshold error _ _ hpoor heffects =>
      subst heffects
      exact h.tooPoor hnd hpoor hpool hcalls
    | gaveUp path nonce reason error _ _ hcause heffects =>
      subst heffects
      refine h.quiet hpool (by simp) ?_
      rw [hshortfalls, ← hfunds]
      -- giving up on a transaction is no preflight failure
      cases reason <;> first | rfl | exact absurd rfl hcause
  | request request reply pc effects hpc hmoves hpool hcalls =>
    obtain ⟨funds, hfunds, hshortfalls⟩ := shortfalls_calls hcalls
    cases hmoves with
    | silent => exact h.quiet hpool (by simp) (hshortfalls.trans hfunds)
    | refreshed path rest balance hstands hread =>
      subst hread
      refine h.refreshed (.request request) rfl ?_ hguard hpool hcalls
      simp [refreshingPath, hpc, hstands]
    | reconciled _ _ _ _ _ _ => exact h.quiet hpool (by simp) (hshortfalls.trans hfunds)

/-- An address that was too poor for a transaction is leased to nobody before the threshold
    has been read, in every run whose refills are enough when they are noticed. -/
theorem out_of_rotation {s : Setup} {start : Millis} {w : World}
    (h : ReachableUnder (step s) (RefillsEnough s) (World.new s start) w) {path : String}
    {threshold : Nat} (hpoor : w.TooPoor path threshold) (job : Nat) : ¬ w.Holds job path := by
  have hshelf : ShelfInv w := by
    refine h.invariant' (fun _ he => nomatch he) ?_
    intro w a w' hreach hinv hguard hstep
    exact shelfInv_step (leaseInv_reachable hreach.reachable)
      (addressInv_reachable hreach.reachable) hinv hguard hstep
  intro hholds
  -- a held worker is busy, a shelved one is not
  obtain ⟨worker, hworker, hpath, hbusy⟩ :=
    (leaseInv_reachable h.reachable).worker_busy hholds
  have hidle := (hshelf (path, threshold) hpoor.mem_shortfalls worker hworker hpath).1
  rw [hbusy] at hidle
  cases hidle

/-! ## Two refreshes -/

/-- The first job leases the one address, which clears the minimum but not the gas. -/
def underfundedRun : List Action :=
  [.start .ethSelfTransfer, .resumeDerivation 0 .resume, .resumeDerivation 0 .resume,
    .resume 0 .resume, .resume 0 .resume, .resume 0 .resume, .resume 0 .resume,
    .resume 0 (.balance 3000000000000000), .resume 0 (.nonceAndFees 7 ⟨200000000000, 1⟩),
    .resume 0 (.gas 21000)]

/-- The second job refreshes the balance and asks for an address. -/
def refreshedRun (balance : Nat) : List Action :=
  underfundedRun ++
    [.start .ethSelfTransfer, .resume 1 .resume, .resume 1 .resume, .resume 1 (.balance balance),
      .resume 1 .resume, .resume 1 .resume]

/-- The state that run ends in. -/
def refreshedWorld (balance : Nat) : World :=
  (exec (step sampleSetup) (World.new sampleSetup 0) (refreshedRun balance)).getD
    (World.new sampleSetup 0)

/-- What the first job fails with. -/
def gasError : JobError :=
  .other { message := "0xload-0 holds 3000000000000000 wei, needs 5040000000000000 for gas" }

/-- The balance read again is below the minimum, and the address is leased to nobody. -/
theorem refreshedRun_underfunded :
    (∀ job, ¬ (refreshedWorld 1000000000000000).Holds job "load-0") ∧
      (refreshedWorld 1000000000000000).TooPoor "load-0" 5040000000000000 := by
  have hexec : exec (step sampleSetup) (World.new sampleSetup 0)
      (refreshedRun 1000000000000000) = some (refreshedWorld 1000000000000000) :=
    exec_getD (by decide +kernel) _
  have hrefills : Along (step sampleSetup) (RefillsEnough sampleSetup) (World.new sampleSetup 0)
      (refreshedRun 1000000000000000) := by
    decide +kernel
  have hpoor : (refreshedWorld 1000000000000000).TooPoor "load-0" 5040000000000000 := by
    refine ⟨(refreshedWorld 1000000000000000).calls.take 3, 0, 3000000000000000, gasError,
      (refreshedWorld 1000000000000000).calls.drop 5, ?_, by decide, ?_⟩
    · decide +kernel
    · decide +kernel
  exact ⟨out_of_rotation (.of_exec hexec hrefills) hpoor, hpoor⟩

/-- With the same balance read again the address clears the static minimum, and is leased. -/
theorem refresh_readmits :
    Reachable (step sampleSetup) (World.new sampleSetup 0) (refreshedWorld 3000000000000000) ∧
      (refreshedWorld 3000000000000000).TooPoor "load-0" 5040000000000000 ∧
      (refreshedWorld 3000000000000000).Holds 1 "load-0" := by
  have hexec : exec (step sampleSetup) (World.new sampleSetup 0)
      (refreshedRun 3000000000000000) = some (refreshedWorld 3000000000000000) :=
    exec_getD (by decide +kernel) _
  refine ⟨reachable_of_exec hexec, ?_, ?_⟩
  · refine ⟨(refreshedWorld 3000000000000000).calls.take 3, 0, 3000000000000000, gasError,
      (refreshedWorld 3000000000000000).calls.drop 5, ?_, by decide, ?_⟩
    · decide +kernel
    · decide +kernel
  · refine ⟨_, (Option.some_get (by decide +kernel)).symm, by decide +kernel, .inl ?_⟩
    exact ⟨by decide +kernel, by decide +kernel⟩

end World

end ContractPinger
