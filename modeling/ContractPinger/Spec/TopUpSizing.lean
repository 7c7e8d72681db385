import ContractPinger.Model.AdhocTopUp
import ContractPinger.Spec.FundingMarks
import ContractPinger.Spec.ShutdownReasons

/-!
# The ad hoc top-up is enough for its run

## Key results

- `topUpTarget_eq`: a target that is printed has not been rounded on the way
- `inv_reachable`: a worker is marked only when its address holds less than the floor and the
  gas of a job
- `topUp_suffices`: while jobs are left, some address holds as much
-/

namespace ContractPinger

open Machine Rounding

/-! ## The target -/

/-- What the comment of the workflow says the target is, in wei. -/
def sizedTarget (floorWei jobs paths gasPerRun gasMargin : Nat) (bandTopUpEth : ℚ) : ℚ :=
  max (floorWei + (jobs ⌈/⌉ paths) * gasPerRun * gasMargin : ℕ) (bandTopUpEth * 10 ^ 18)

/-- Floor division of the negated count rounds the share up. -/
theorem neg_floorDiv_neg (jobs : Nat) {paths : Nat} (hpaths : 0 < paths) :
    -(-(jobs : ℤ) / paths) = (jobs ⌈/⌉ paths : ℕ) := by
  rw [Nat.ceilDiv_eq_add_pred_div]
  have hsplit := Nat.div_add_mod (jobs + paths - 1) paths
  have hmod := Nat.mod_lt (jobs + paths - 1) hpaths
  generalize (jobs + paths - 1) / paths = share at hsplit
  generalize hrest : (jobs + paths - 1) % paths = rest at hsplit hmod
  -- the share is what the negated count holds of the negated path count
  have hunique : ((paths : ℤ) - 1 - rest) + paths * -share = -(jobs : ℤ) ∧
      0 ≤ (paths : ℤ) - 1 - rest ∧ (paths : ℤ) - 1 - rest < paths := by
    refine ⟨?_, by omega, by omega⟩
    have hcast : ((paths * share + rest : ℕ) : ℤ) = (jobs + paths - 1 : ℕ) := by rw [hsplit]
    push_cast [Nat.cast_sub (show 1 ≤ jobs + paths by omega)] at hcast
    linarith
  have hdiv : -(jobs : ℤ) / paths = -(share : ℤ) :=
    ((Int.ediv_emod_unique (by exact_mod_cast hpaths)).mpr hunique).1
  rw [hdiv, neg_neg]

/-- An amount that is below 10^10 ETH once it is rounded is so before. -/
theorem lt_of_rounded {x : ℚ} (h : toDigits decimalPrecision x < 10 ^ 10) : x < 10 ^ 10 := by
  have hlt : x < 10 ^ (10 : ℤ) :=
    lt_of_toDigits_lt (show 0 < decimalPrecision by decide) (by exact_mod_cast h)
  exact_mod_cast hlt

/-- Whole amounts of wei below 10^10 ETH are computed exactly. -/
theorem toDigits_wei {n : ℕ} (h : toDigits decimalPrecision ((n : ℚ) / 10 ^ 18) < 10 ^ 10) :
    toDigits decimalPrecision ((n : ℚ) / 10 ^ 18) = n / 10 ^ 18 := by
  have hlt := lt_of_rounded h
  rw [div_lt_iff₀ (by positivity)] at hlt
  have hdigits : n < 10 ^ decimalPrecision := by
    have hprod : (10 : ℚ) ^ 10 * 10 ^ 18 = 10 ^ decimalPrecision := by norm_num [decimalPrecision]
    rw [hprod] at hlt
    exact_mod_cast hlt
  have hzpow : ((n : ℚ) / 10 ^ 18) = n * 10 ^ (-18 : ℤ) := by
    rw [zpow_neg, div_eq_mul_inv]
    norm_cast
  rw [hzpow]
  exact toDigits_eq_self hdigits

/-- The need of an address is computed exactly, as long as it is below 10^10 ETH. -/
theorem need_exact {share gasPerRun gasMargin : ℕ}
    (h : toDigits decimalPrecision (toDigits decimalPrecision
      ((share : ℚ) * (gasPerRun / 10 ^ 18)) * gasMargin) < 10 ^ 10) :
    toDigits decimalPrecision (toDigits decimalPrecision
      ((share : ℚ) * (gasPerRun / 10 ^ 18)) * gasMargin) =
      (share * gasPerRun * gasMargin : ℕ) / 10 ^ 18 := by
  have hgas : (share : ℚ) * (gasPerRun / 10 ^ 18) = (share * gasPerRun : ℕ) / 10 ^ 18 := by
    push_cast
    ring
  rw [hgas] at h ⊢
  rcases Nat.eq_zero_or_pos gasMargin with rfl | hmargin
  · simp
  · -- the gas of the share is no more than with its margin, so it is exact first
    have hless : toDigits decimalPrecision ((share * gasPerRun : ℕ) / 10 ^ 18) < 10 ^ 10 := by
      refine lt_of_le_of_lt ?_ (lt_of_rounded h)
      have hone : (1 : ℚ) ≤ gasMargin := by exact_mod_cast hmargin
      exact le_mul_of_one_le_right (toDigits_nonneg _ (by positivity)) hone
    rw [toDigits_wei hless] at h ⊢
    have hneed : ((share * gasPerRun : ℕ) : ℚ) / 10 ^ 18 * gasMargin =
        (share * gasPerRun * gasMargin : ℕ) / 10 ^ 18 := by
      push_cast
      ring
    rw [hneed] at h ⊢
    exact toDigits_wei h

/-- Likewise the floor with the need. -/
theorem floor_need_exact {floorWei share gasPerRun gasMargin : ℕ}
    (h : toDigits decimalPrecision (toDigits decimalPrecision ((floorWei : ℚ) / 10 ^ 18) +
      toDigits decimalPrecision (toDigits decimalPrecision
        ((share : ℚ) * (gasPerRun / 10 ^ 18)) * gasMargin)) < 10 ^ 10) :
    toDigits decimalPrecision (toDigits decimalPrecision ((floorWei : ℚ) / 10 ^ 18) +
      toDigits decimalPrecision (toDigits decimalPrecision
        ((share : ℚ) * (gasPerRun / 10 ^ 18)) * gasMargin)) =
      (floorWei + share * gasPerRun * gasMargin : ℕ) / 10 ^ 18 := by
  have hsum := lt_of_rounded h
  have hfloor := toDigits_nonneg decimalPrecision (x := (floorWei : ℚ) / 10 ^ 18) (by positivity)
  have hgas := toDigits_nonneg decimalPrecision (x := (share : ℚ) * (gasPerRun / 10 ^ 18))
    (by positivity)
  have hneed := toDigits_nonneg decimalPrecision
    (mul_nonneg hgas (show (0 : ℚ) ≤ gasMargin by positivity))
  -- either summand is no more than the sum
  rw [toDigits_wei (by linarith), need_exact (by linarith)] at h ⊢
  have hwei : (floorWei : ℚ) / 10 ^ 18 + (share * gasPerRun * gasMargin : ℕ) / 10 ^ 18 =
      (floorWei + share * gasPerRun * gasMargin : ℕ) / 10 ^ 18 := by
    push_cast
    ring
  rw [hwei] at h ⊢
  exact toDigits_wei h

/-- A target that is printed has not been rounded on the way, but for the digits of a band
    beyond the wei. -/
theorem topUpTarget_eq {floorWei jobs paths gasPerRun gasMargin : Nat} {band : ℚ} {target : ℤ}
    (h : topUpTarget floorWei jobs paths gasPerRun gasMargin band = some target) :
    target = halfEven (sizedTarget floorWei jobs paths gasPerRun gasMargin band) := by
  unfold topUpTarget at h
  split at h
  · cases h
  · rename_i hpaths
    dsimp only at h
    split at h
    · rename_i hprinted
      cases h
      rw [neg_floorDiv_neg jobs (Nat.pos_of_ne_zero hpaths)] at hprinted ⊢
      rw [sizedTarget]
      generalize jobs ⌈/⌉ paths = share at hprinted ⊢
      -- below 10^28 wei, so nothing was rounded
      have htarget : max (toDigits decimalPrecision (toDigits decimalPrecision
          ((floorWei : ℚ) / 10 ^ 18) + toDigits decimalPrecision (toDigits decimalPrecision
            (((share : ℕ) : ℤ) * (gasPerRun / 10 ^ 18)) * gasMargin))) band < 10 ^ 10 := by
        by_contra hlarge
        push Not at hlarge
        refine absurd hprinted (not_lt.mpr (le_halfEven ?_))
        have hscaled := mul_le_mul_of_nonneg_right hlarge
          (show (0 : ℚ) ≤ 10 ^ 18 by positivity)
        refine le_trans (le_of_eq ?_) hscaled
        norm_num [decimalPrecision]
      have hshare : (((share : ℕ) : ℤ) : ℚ) = share := Int.cast_natCast share
      rw [hshare] at htarget ⊢
      have hexact := floor_need_exact (lt_of_le_of_lt (le_max_left _ band) htarget)
      rw [hexact, max_mul_of_nonneg _ _ (by positivity), div_mul_cancel₀ _ (by positivity)]
    · cases h

/-! ## The run -/

/-- A job that has not asked for an address has no worker. -/
theorem Frame.worker_of_idle {f : Frame} (hwf : f.Wf) (h : f.tenure = .idle) :
    f.worker = none := by
  cases hphase : f.phase with
  | before =>
    simp only [Wf, hphase] at hwf
    exact hwf.1
  | waiting => simp [tenure, hphase] at h
  | held => cases hworker : f.worker <;> simp [tenure, hphase, hworker] at h
  | after => simp [tenure, hphase] at h

namespace World

/-- A job that has a worker keeps one. -/
theorem step_keeps_worker {s : Setup} {w w' : World} {a : Action} {job : Nat} {f : Frame}
    (hstep : step s w a = some w') (hf : w.frames[job]? = some f)
    (hworker : f.worker.isSome = true) :
    ∃ f', w'.frames[job]? = some f' ∧ f'.worker.isSome = true := by
  cases step_job hstep job with
  | absent hbefore _ _ _ => simp [hbefore] at hf
  | accepted g _ _ hid _ _ _ =>
    rw [hid, List.getElem?_eq_none (Nat.le_refl _)] at hf
    cases hf
  | resumed reply g g' _ _ hbefore hafter hresume _ _ =>
    obtain rfl := Option.some.inj (hbefore.symm.trans hf)
    refine ⟨g', hafter, ?_⟩
    -- a job that goes on keeps its worker or has just been given one
    rcases Frame.resume_worker hresume with ⟨hkept, _⟩ | ⟨path, _, _, hnew⟩
    · exact hkept ▸ hworker
    · exact hnew ▸ rfl
  | stays g hbefore hafter _ _ _ =>
    obtain rfl := Option.some.inj (hbefore.symm.trans hf)
    exact ⟨g, hafter, hworker⟩
  | deadline g _ hbefore _ hafter _ =>
    obtain rfl := Option.some.inj (hbefore.symm.trans hf)
    exact ⟨_, hafter, hworker⟩
  | aborted g _ hbefore _ hafter _ =>
    obtain rfl := Option.some.inj (hbefore.symm.trans hf)
    exact ⟨_, hafter, hworker⟩

end World

namespace FundedService

variable {s : Setup} {gas : Nat} {now : Millis} {start : String → Nat} {w w' : FundedService}

/-- Every step meets the guard of the run. -/
abbrev Affordable (s : Setup) (gas : Nat) (w : FundedService) (a : FundedAction) : Prop :=
  w.affordable s gas a = true

/-- What holds of a funded service in every run. -/
structure Inv (s : Setup) (gas : Nat) (w : FundedService) : Prop where
  /-- A job pays no more than its gas. -/
  frugal : ∀ payment ∈ w.spent, payment.2.2 ≤ gas
  /-- A job pays once. -/
  once : (w.spent.map Prod.fst).Nodup
  /-- Who has paid had a worker. -/
  leased : ∀ job ∈ w.spent.map Prod.fst, ∃ f, w.world.frames[job]? = some f ∧
    f.worker.isSome = true
  /-- An address holds no more than its job goes by. -/
  readings : ∀ (job : Nat) (f : Frame) (balance : Nat) (path : String),
    w.world.frames[job]? = some f → f.pc.reading = some balance → f.worker = some path →
    w.balances path ≤ balance
  /-- A marked address holds less than is enough. -/
  marked : ∀ path, w.world.pool.Marked path → w.balances path < enough s gas

/-- A run of the funded service is a run of the service. -/
theorem world_reachable {guard : FundedService → FundedAction → Prop}
    (h : ReachableUnder (step s) guard (new s now start) w) :
    Reachable (World.step s) (World.new s now) w.world := by
  refine h.invariant (I := fun w => Reachable (World.step s) (World.new s now) w.world) .refl ?_
  intro w a w' hreach _ hstep
  cases a with
  | service action =>
    obtain ⟨world, hworld, rfl⟩ := Option.map_eq_some_iff.mp hstep
    -- paying leaves the service as it is
    exact hreach.tail action trivial hworld
  | spend job wei =>
    obtain ⟨f, _, hspend⟩ := Option.bind_eq_some_iff.mp hstep
    obtain ⟨path, _, hspend⟩ := Option.bind_eq_some_iff.mp hspend
    simp only [Option.ite_none_right_eq_some, Option.some.injEq] at hspend
    obtain ⟨_, rfl⟩ := hspend
    exact hreach

/-- What a job that pays is, and what it leaves. -/
theorem step_spend {job wei : Nat} (h : step s w (.spend job wei) = some w') :
    ∃ f path, w.world.frames[job]? = some f ∧ f.worker = some path ∧
      job ∉ w.spent.map Prod.fst ∧ w' = { w with spent := w.spent ++ [(job, path, wei)] } := by
  obtain ⟨f, hf, hspend⟩ := Option.bind_eq_some_iff.mp h
  obtain ⟨path, hpath, hspend⟩ := Option.bind_eq_some_iff.mp hspend
  simp only [Option.ite_none_right_eq_some, Option.some.injEq] at hspend
  obtain ⟨⟨hfresh, _⟩, rfl⟩ := hspend
  exact ⟨f, path, hf, hpath, hfresh, rfl⟩

/-- A payment adds to no address. -/
theorem balances_spend (w : FundedService) (payment : Nat × String × Nat) (path : String) :
    ({ w with spent := w.spent ++ [payment] } : FundedService).balances path ≤
      w.balances path := by
  rw [balances, List.map_append, List.map_singleton, Accounts.payAll_concat]
  exact Accounts.pay_le _ _ _

/-- A fair answer that a job marks its worker by is about an address that holds less than is
    enough. -/
theorem Shorts.poor {f : Frame} {path : String} {balance threshold : Nat} {reply : Reply}
    (h : f.Shorts s w.world.pool path balance reply threshold)
    (hfair : w.fairAnswer s gas f reply = true)
    (hreading : f.pc.reading = some balance → f.worker = some path → w.balances path ≤ balance)
    (hlt : balance < threshold) : w.balances path < enough s gas := by
  have hfloor : s.env.bidirectional.minBalanceWei ≤ enough s gas := Nat.le_add_right _ _
  cases h with
  | refreshed rest hpc =>
    simp only [fairAnswer, hpc, decide_eq_true_eq] at hfair
    omega
  | preflight hpc hworker =>
    simp only [fairAnswer, hpc, hworker, decide_eq_true_eq] at hfair
    omega
  | estimated nonce fees estimate hpc hworker =>
    have hheld := hreading (by rw [hpc]; rfl) hworker
    simp only [fairAnswer, hpc, hworker, decide_eq_true_eq] at hfair
    omega
  | refused e hpc hworker hmentions =>
    -- the two calls that may be refused
    cases hstands : f.pc with
    | readingNonce b =>
      simp only [fairAnswer, hstands, hworker, hmentions, Bool.not_true, Bool.false_or,
        decide_eq_true_eq] at hfair
      exact hfair
    | estimatingGas b nonce fees =>
      simp only [fairAnswer, hstands, hworker, hmentions, Bool.not_true, Bool.false_or,
        decide_eq_true_eq] at hfair
      exact hfair
    | _ =>
      rw [hstands] at hpc
      cases hpc

/-- A job that is resumed by a fair answer goes by a balance its address does not exceed. -/
theorem Inv.reading_resume {view : RunView} {job : Nat} {f : Frame} {next : Frame × List Effect}
    {path : String} {balance : Nat} {reply : Reply} (h : w.Inv s gas)
    (hf : w.world.frames[job]? = some f) (hfair : w.fairAnswer s gas f reply = true)
    (hresume : f.resume s view job reply = some next) (hreading : next.1.pc.reading = some balance)
    (hworker : next.1.worker = some path) : w.balances path ≤ balance := by
  rw [Frame.resume_reading_worker hresume hreading] at hworker
  rcases Frame.resume_reading hresume hreading with hbefore | ⟨hpc, rfl⟩
  · exact h.readings job f balance path hf hbefore hworker
  · simpa only [fairAnswer, hpc, hworker, decide_eq_true_eq] using hfair

/-- A step of the service in which a job is answered fairly. -/
theorem Inv.service {action : Action} {world : World} (hleases : w.world.LeaseInv)
    (h : w.Inv s gas) (hfair : w.Affordable s gas (.service action))
    (hstep : World.step s w.world action = some world) :
    ({ w with world } : FundedService).Inv s gas := by
  -- of the replies it is the balances that the accounts constrain
  have hanswer : ∀ job reply f, action = .resume job reply → w.world.frames[job]? = some f →
      w.fairAnswer s gas f reply = true := by
    rintro job reply f rfl hf
    simpa [Affordable, affordable, hf] using hfair
  refine { h with leased := ?_, readings := ?_, marked := ?_ }
  · intro job hjob
    obtain ⟨f, hf, hworker⟩ := h.leased job hjob
    exact World.step_keeps_worker hstep hf hworker
  · intro job f' balance path hf' hreading hworker
    cases World.step_job hstep job with
    | absent _ hafter _ _ => simp [hafter] at hf'
    | accepted f _ _ _ hafter hfresh _ =>
      obtain rfl := Option.some.inj (hafter.symm.trans hf')
      rw [hfresh.worker] at hworker
      cases hworker
    | resumed reply f g _ hresumes hbefore hafter hresume _ _ =>
      obtain rfl := Option.some.inj (hafter.symm.trans hf')
      exact h.reading_resume hbefore (hanswer job reply f hresumes hbefore) hresume hreading hworker
    | stays f hbefore hafter _ _ _ =>
      obtain rfl := Option.some.inj (hafter.symm.trans hf')
      exact h.readings job f balance path hbefore hreading hworker
    | deadline f _ hbefore _ hafter _ =>
      obtain rfl := Option.some.inj (hafter.symm.trans hf')
      exact h.readings job f balance path hbefore hreading hworker
    | aborted f _ hbefore _ hafter _ =>
      obtain rfl := Option.some.inj (hafter.symm.trans hf')
      exact h.readings job f balance path hbefore hreading hworker
  · intro path hmarked
    rcases World.marked_step hleases hstep hmarked with hbefore | hjob | hrequest
    · exact h.marked path hbefore
    · -- marked by a job, for a balance below what it needs
      obtain ⟨job, reply, f, balance, threshold, hresumes, hf, hshorts, hlt⟩ := hjob
      exact Shorts.poor (w := w) hshorts (hanswer job reply f hresumes hf)
        (fun hreading hworker => h.readings job f balance path hf hreading hworker) hlt
    · -- marked by a request for the workers, for a balance below the minimum
      obtain ⟨request, rest, balance, rfl, hrequest, hlt⟩ := hrequest
      have hread : w.balances path ≤ balance := by
        simpa [Affordable, affordable, hrequest] using hfair
      show w.balances path < enough s gas
      rw [enough]
      omega

/-- Every step of a run keeps the invariant. -/
theorem Inv.step {a : FundedAction} (hleases : w.world.LeaseInv) (h : w.Inv s gas)
    (hfair : w.Affordable s gas a) (hstep : step s w a = some w') : w'.Inv s gas := by
  cases a with
  | service action =>
    obtain ⟨world, hworld, rfl⟩ := Option.map_eq_some_iff.mp hstep
    exact h.service hleases hfair hworld
  | spend job wei =>
    obtain ⟨f, path, hf, hworker, hfresh, rfl⟩ := step_spend hstep
    -- a payment only takes from the balances
    have hless := balances_spend w (job, path, wei)
    refine ⟨?_, ?_, ?_, ?_, ?_⟩
    · intro payment hmem
      rcases List.mem_append.mp hmem with hold | hnew
      · exact h.frugal payment hold
      · rw [List.mem_singleton.mp hnew]
        exact of_decide_eq_true hfair
    · rw [List.map_append]
      refine List.nodup_append.mpr ⟨h.once, List.nodup_singleton _, ?_⟩
      -- a job pays once: it has not paid when it does
      intro a ha b hb heq
      rw [heq, List.mem_singleton.mp hb] at ha
      exact hfresh ha
    · intro i hi
      rw [List.map_append, List.mem_append] at hi
      rcases hi with hold | hnew
      · exact h.leased i hold
      · rw [List.mem_singleton.mp hnew]
        exact ⟨f, hf, by rw [hworker]; rfl⟩
    · intro i g balance p hg hreading hp
      exact (hless p).trans (h.readings i g balance p hg hreading hp)
    · exact fun p hmarked => (hless p).trans_lt (h.marked p hmarked)

/-- A new service has spent nothing. -/
theorem inv_new (s : Setup) (gas : Nat) (now : Millis) (start : String → Nat) :
    (new s now start).Inv s gas where
  frugal _ hmem := nomatch hmem
  once := List.nodup_nil
  leased _ hmem := nomatch hmem
  readings _ _ _ _ hf := nomatch hf
  marked path hmarked := absurd hmarked (WorkerPool.not_marked_new _ path)

/-- It holds in every state of every run. -/
theorem inv_reachable
    (h : ReachableUnder (FundedService.step s) (Affordable s gas) (new s now start) w) :
    w.Inv s gas :=
  h.invariant' (inv_new s gas now start) fun _ _ _ hreach hinv hguard hstep =>
    hinv.step (World.leaseInv_reachable (world_reachable hreach)) hguard hstep

/-- Nobody adds to the start. -/
theorem start_reachable {guard : FundedService → FundedAction → Prop}
    (h : ReachableUnder (FundedService.step s) guard (new s now start) w) : w.start = start := by
  refine h.invariant (I := fun w => w.start = start) rfl ?_
  intro w a w' hstart _ hstep
  cases a with
  | service action =>
    obtain ⟨world, _, rfl⟩ := Option.map_eq_some_iff.mp hstep
    exact hstart
  | spend job wei =>
    obtain ⟨_, _, _, _, _, rfl⟩ := step_spend hstep
    exact hstart

/-! ## Nobody is refused -/

/-- A job that is answered fairly leaves an address unmarked that holds enough. -/
theorem unrefused_onPools {pool : WorkerPool} {path : String} {effects : List Effect}
    (hpath : path ∈ pool.paths) (hfree : ¬ pool.Marked path)
    (hsets : ∀ balance threshold, .setBalance path balance threshold ∈ effects →
      threshold ≤ balance)
    (h : pool.Rejects (· ≠ .noWorkerAvailable .allUnderfunded)) :
    (effects.foldl (fun pool effect => effect.onPool now pool) pool).Rejects
      (· ≠ .noWorkerAvailable .allUnderfunded) := by
  induction effects generalizing pool with
  | nil => exact h
  | cons effect rest ih =>
    refine ih ?_ ?_ (fun b t hmem => hsets b t (List.mem_cons_of_mem _ hmem)) ?_
    · rwa [WorkerPool.onPool_paths]
    · intro hmarked
      rcases hmarked.of_onPool with hbefore | ⟨balance, threshold, rfl, hlt⟩
      · exact hfree hbefore
      · exact absurd (hsets balance threshold List.mem_cons_self) (not_le.mpr hlt)
    · -- with one address unmarked, nobody is told that all are
      exact h.onPool fun _ _ hrefused =>
        absurd (WorkerPool.Marked.of_allUnderfunded hrefused hpath) hfree

/-- Who asks for an address has not paid, and all who have paid are jobs. -/
theorem Inv.spent_lt_frames (h : w.Inv s gas) {job : Nat} {f : Frame}
    (hf : w.world.frames[job]? = some f) (hworker : f.worker = none) :
    w.spent.length < w.world.frames.length := by
  -- a job without a worker has paid nothing
  have hfresh : job ∉ w.spent.map Prod.fst := by
    intro hmem
    obtain ⟨g, hg, hsome⟩ := h.leased job hmem
    obtain rfl := Option.some.inj (hf.symm.trans hg)
    rw [hworker] at hsome
    cases hsome
  have hnd : (job :: w.spent.map Prod.fst).Nodup := List.nodup_cons.mpr ⟨hfresh, h.once⟩
  have hsub : job :: w.spent.map Prod.fst ⊆ List.range w.world.frames.length := by
    intro i hi
    rw [List.mem_range]
    rcases List.mem_cons.mp hi with rfl | hi
    · exact (List.getElem?_eq_some_iff.mp hf).1
    · obtain ⟨g, hg, _⟩ := h.leased i hi
      exact (List.getElem?_eq_some_iff.mp hg).1
  -- it and those that have paid are different jobs, all of them accepted
  have hlength := (List.subperm_of_subset hnd hsub).length_le
  rwa [List.length_cons, List.length_map, List.length_range] at hlength

/-- While an address holds enough, the jobs that are answered fairly are not told that none
    does. -/
theorem Inv.unrefused {action : Action} {world : World} {jobs : Nat}
    (hleases : w.world.LeaseInv) (h : w.Inv s gas) (hfair : w.Affordable s gas (.service action))
    (hstep : World.step s w.world action = some world)
    (hrich : w.spent.length < jobs →
      ∃ path ∈ w.world.pool.paths, enough s gas ≤ w.balances path)
    (hjobs : w.world.frames.length ≤ jobs)
    (hrejects : w.world.pool.Rejects (· ≠ .noWorkerAvailable .allUnderfunded)) :
    world.pool.Rejects (· ≠ .noWorkerAvailable .allUnderfunded) := by
  refine World.step_rejects (by simp) (fun _ => by simp [shuttingDown]) ?_ hrejects hstep
  rintro job reply f next rfl hf hresume
  -- only a job that asks for a worker can be refused one
  by_cases hask : ∃ i, .acquireWithin i ∈ next.2
  · obtain ⟨i, hmem⟩ := hask
    have hwf := hleases.wf f (List.mem_of_getElem? hf)
    obtain ⟨_, hidle, _⟩ := Frame.resume_asks hwf hresume hmem
    -- it has paid nothing, so there are fewer payments than jobs
    have hspent := h.spent_lt_frames hf (Frame.worker_of_idle hwf hidle)
    obtain ⟨path, hpath, hholds⟩ := hrich (hspent.trans_le hjobs)
    have hanswer : w.fairAnswer s gas f reply = true := by
      simpa [Affordable, affordable, hf] using hfair
    refine unrefused_onPools hpath ?_ ?_ hrejects
    · exact fun hmarked => absurd (h.marked path hmarked) (not_lt.mpr hholds)
    · -- an address that holds enough is not marked on the way either
      intro balance threshold hset
      by_contra hlt
      have hpoor := Shorts.poor (w := w) (Frame.resume_shorts hresume hset) hanswer
        (fun hreading hworker => h.readings job f balance path hf hreading hworker)
        (not_le.mp hlt)
      exact absurd hholds (not_le.mpr hpoor)
  · exact hrejects.onPools _ fun i hmem => absurd ⟨i, hmem⟩ hask

/-! ## The top-up is enough -/

section Sized

variable {jobs gasPerRun gasMargin : Nat} {band : ℚ}

/-- What an address that has been topped up can pay for, on top of the floor. -/
theorem share_le_start {path : String}
    (h : halfEven (sizedTarget s.env.bidirectional.minBalanceWei jobs s.paths gasPerRun
      gasMargin band) ≤ start path) :
    s.env.bidirectional.minBalanceWei + (jobs ⌈/⌉ s.paths) * (gasPerRun * gasMargin) ≤
      start path := by
  have hneed : ((s.env.bidirectional.minBalanceWei +
      (jobs ⌈/⌉ s.paths) * gasPerRun * gasMargin : ℕ) : ℤ) ≤ start path := by
    refine le_trans (le_halfEven ?_) h
    rw [Int.cast_natCast]
    exact le_max_left _ _
  rw [← Nat.mul_assoc]
  exact_mod_cast hneed

/-- With fewer payments than jobs, in whatever order, an address holds enough. -/
theorem enough_after (hpaths : 0 < s.paths)
    (hfunded : ∀ path ∈ buildPaths s.env.bidirectional.pathPrefix s.paths,
      halfEven (sizedTarget s.env.bidirectional.minBalanceWei jobs s.paths gasPerRun
        gasMargin band) ≤ start path)
    {payments : List (String × Nat)}
    (hfrugal : ∀ payment ∈ payments, payment.2 ≤ gasPerRun * gasMargin)
    (hlength : payments.length < jobs) :
    ∃ path ∈ buildPaths s.env.bidirectional.pathPrefix s.paths,
      enough s (gasPerRun * gasMargin) ≤ Accounts.payAll start payments path := by
  refine Accounts.exists_le_payAll (buildPaths_nodup _ _) hfrugal ?_
    fun path hpath => share_le_start (hfunded path hpath)
  -- the shares of all addresses are the jobs, rounded up
  have hshares : jobs ≤ s.paths * (jobs ⌈/⌉ s.paths) := (ceilDiv_le_iff_le_smul hpaths).mp le_rfl
  rw [buildPaths, List.length_map, List.length_range]
  omega

/-- While jobs have yet to pay, an address holds enough: in every state of every run, if that is
    so of the payments alone. -/
theorem rich_reachable {gas : Nat} (hpayable : ∀ payments : List (String × Nat),
      (∀ payment ∈ payments, payment.2 ≤ gas) → payments.length < jobs →
      ∃ path ∈ buildPaths s.env.bidirectional.pathPrefix s.paths,
        enough s gas ≤ Accounts.payAll start payments path)
    (h : ReachableUnder (FundedService.step s) (Affordable s gas) (new s now start) w)
    (hspent : w.spent.length < jobs) :
    ∃ path ∈ w.world.pool.paths, enough s gas ≤ w.balances path := by
  rw [(World.addressInv_reachable (world_reachable h)).paths, balances, start_reachable h]
  -- the payments of a run are such payments
  refine hpayable _ (fun payment hmem => ?_) (by rwa [List.length_map])
  obtain ⟨e, he, rfl⟩ := List.mem_map.mp hmem
  exact (inv_reachable h).frugal e he

/-- So no job is told that no address does. -/
theorem rejects_reachable {gas : Nat}
    (hrich : ∀ w, ReachableUnder (FundedService.step s) (Affordable s gas) (new s now start) w →
      w.spent.length < jobs → ∃ path ∈ w.world.pool.paths, enough s gas ≤ w.balances path)
    (h : ReachableUnder (FundedService.step s) (Affordable s gas) (new s now start) w) :
    w.world.frames.length ≤ jobs →
      w.world.pool.Rejects (· ≠ .noWorkerAvailable .allUnderfunded) := by
  refine h.invariant' (I := fun w => w.world.frames.length ≤ jobs →
    w.world.pool.Rejects (· ≠ .noWorkerAvailable .allUnderfunded))
    (fun _ _ _ hmem => by cases hmem) fun w a w' hreach ih hfair hstep hjobs => ?_
  cases a with
  | service action =>
    obtain ⟨world, hworld, rfl⟩ := Option.map_eq_some_iff.mp hstep
    -- jobs are only added, so there were as few of them before the step
    have hbefore := (World.frames_length_step hworld).trans hjobs
    exact (inv_reachable hreach).unrefused (World.leaseInv_reachable (world_reachable hreach))
      hfair hworld (hrich w hreach) hbefore (ih hbefore)
  | spend job wei =>
    obtain ⟨_, _, _, _, _, rfl⟩ := step_spend hstep
    exact ih hjobs

/-- Addresses that start with the target are enough for the run: in whatever order the jobs
    pay, as long as fewer than all have, some address holds the floor and the gas of one more;
    so nobody finds the pool entirely underfunded, and no job of the run is told so. -/
theorem topUp_suffices (hpaths : 0 < s.paths)
    (hfunded : ∀ path ∈ buildPaths s.env.bidirectional.pathPrefix s.paths,
      halfEven (sizedTarget s.env.bidirectional.minBalanceWei jobs s.paths gasPerRun
        gasMargin band) ≤ start path) :
    (∀ target, topUpTarget s.env.bidirectional.minBalanceWei jobs s.paths gasPerRun gasMargin
        band = some target →
      target = halfEven (sizedTarget s.env.bidirectional.minBalanceWei jobs s.paths gasPerRun
        gasMargin band)) ∧
    (∀ payments : List (String × Nat),
      (∀ payment ∈ payments, payment.2 ≤ gasPerRun * gasMargin) → payments.length < jobs →
      ∃ path ∈ buildPaths s.env.bidirectional.pathPrefix s.paths,
        enough s (gasPerRun * gasMargin) ≤ Accounts.payAll start payments path) ∧
    ∀ w, ReachableUnder (FundedService.step s) (Affordable s (gasPerRun * gasMargin))
        (new s now start) w →
      (w.spent.length < jobs →
        (∃ path ∈ w.world.pool.paths, enough s (gasPerRun * gasMargin) ≤ w.balances path) ∧
        ∀ instant, w.world.pool.acquire instant ≠ .error .allUnderfunded) ∧
      (w.world.frames.length ≤ jobs → ∀ job,
        (job, .rejected (.noWorkerAvailable .allUnderfunded)) ∉ w.world.pool.settled) := by
  have hpayments : ∀ payments : List (String × Nat),
      (∀ payment ∈ payments, payment.2 ≤ gasPerRun * gasMargin) → payments.length < jobs →
      ∃ path ∈ buildPaths s.env.bidirectional.pathPrefix s.paths,
        enough s (gasPerRun * gasMargin) ≤ Accounts.payAll start payments path :=
    fun _ hfrugal hlength => enough_after hpaths hfunded hfrugal hlength
  have hrich : ∀ w, ReachableUnder (FundedService.step s) (Affordable s (gasPerRun * gasMargin))
      (new s now start) w → w.spent.length < jobs →
      ∃ path ∈ w.world.pool.paths, enough s (gasPerRun * gasMargin) ≤ w.balances path :=
    fun w hreach hspent => rich_reachable hpayments hreach hspent
  refine ⟨fun target => topUpTarget_eq, hpayments, fun w hreach => ⟨fun hspent => ?_, ?_⟩⟩
  · obtain ⟨path, hpath, hholds⟩ := hrich w hreach hspent
    refine ⟨⟨path, hpath, hholds⟩, fun instant hrefused => ?_⟩
    -- refused for want of funds, every address is marked, the one that holds enough too
    have hmarked := WorkerPool.Marked.of_allUnderfunded hrefused hpath
    exact absurd ((inv_reachable hreach).marked path hmarked) (not_lt.mpr hholds)
  · exact fun hjobs job hmem => rejects_reachable hrich hreach hjobs job _ hmem rfl

end Sized

open World (sampleSetup)

/-! ## Three jobs on two addresses -/

/-- A service of two paths. -/
def twoPathsSetup : Setup :=
  { sampleSetup with env := { sampleSetup.env with bidirectional := { paths := 2 } } }

/-- A job goes from its acceptance to an address of its own. -/
def asks (job : Nat) : List Action := List.replicate 4 (.resume job .resume)

/-- Two of the jobs get an address each, and the first goes on to its broadcast. -/
def broadcastRun : List Action :=
  [.start .ethSelfTransfer, .start .ethSelfTransfer, .resumeDerivation 0 .resume,
    .resumeDerivation 0 .resume, .resumeDerivation 0 .resume] ++ asks 0 ++ asks 1 ++
    [.resume 0 (.balance 2093600000000000), .resume 0 (.nonceAndFees 7 ⟨1, 1⟩),
      .resume 0 (.gas 21000), .resume 0 .instruction, .resume 0 (.solanaTx "sig"),
      .resume 0 (.rsv ⟨"r", "s", 0⟩), .resume 0 .resume, .resume 0 (.txHash "0xab")]

/-- Its transaction is mined at 21000 wei. -/
def paidRun : List FundedAction := broadcastRun.map .service ++ [.spend 0 21000]

/-- The service that run ends in, with two addresses that held the target. -/
def paidService : FundedService :=
  (exec (FundedService.step twoPathsSetup) (new twoPathsSetup 0 fun _ => 2093600000000000)
    paidRun).getD (new twoPathsSetup 0 fun _ => 2093600000000000)

/-- The target that is printed is the sized one, and whatever the first two of the three jobs
    pay, whether in a list or in the run above, an address holds enough for the third. -/
theorem paidRun_suffices :
    (2093600000000000 : ℤ) = halfEven (sizedTarget 2000000000000000 3 2 23400000000000 2
      (2 / 1000)) ∧
    (∃ path ∈ ["load-0", "load-1"], enough twoPathsSetup (23400000000000 * 2) ≤
      Accounts.payAll (fun _ => 2093600000000000)
        [("load-0", 46800000000000), ("load-0", 46800000000000)] path) ∧
    paidService.spent = [(0, "load-0", 21000)] ∧
    (∃ path ∈ paidService.world.pool.paths, enough twoPathsSetup (23400000000000 * 2) ≤
      paidService.balances path) ∧
    (∀ instant, paidService.world.pool.acquire instant ≠ .error .allUnderfunded) ∧
    ∀ job, (job, .rejected (.noWorkerAvailable .allUnderfunded)) ∉
      paidService.world.pool.settled := by
  have hexec : exec (FundedService.step twoPathsSetup)
      (new twoPathsSetup 0 fun _ => 2093600000000000) paidRun = some paidService :=
    exec_getD (by decide +kernel) _
  have hspent : paidService.spent = [(0, "load-0", 21000)] := by decide +kernel
  have hfunded : ∀ path ∈ buildPaths twoPathsSetup.env.bidirectional.pathPrefix twoPathsSetup.paths,
      halfEven (sizedTarget twoPathsSetup.env.bidirectional.minBalanceWei 3 twoPathsSetup.paths
        23400000000000 2 (2 / 1000)) ≤ ((2093600000000000 : ℕ) : ℤ) := by
    intro _ _
    have hpaths : twoPathsSetup.paths = 2 := by decide
    -- the target is rounded to even, so an integer above the quotient is above it
    refine halfEven_le ?_
    rw [hpaths]
    norm_num [sizedTarget, twoPathsSetup, sampleSetup, Nat.ceilDiv_eq_add_pred_div]
  obtain ⟨hprinted, hpayments, hruns⟩ := @topUp_suffices _ 0 _ _ _ _ _ (by decide) hfunded
  obtain ⟨hserved, hunrefused⟩ := hruns paidService (.of_exec hexec (by decide +kernel))
  obtain ⟨hrich, hacquired⟩ := hserved (by rw [hspent]; decide)
  exact ⟨hprinted _ (by decide +kernel), hpayments _ (by decide) (by decide), hspent, hrich,
    hacquired, hunrefused (by decide +kernel)⟩

end FundedService

end ContractPinger
