import ContractPinger.Model.SendLoop
import ContractPinger.Spec.RefusedJobs
import ContractPinger.Spec.SweepSpending
import ContractPinger.Spec.SweptAddresses
import ContractPinger.Spec.TopUpSizing

/-!
# The ad hoc load test, end to end

The workflow sizes a target, has the sweep fill the addresses to it, and starts a service of
its own that leases them. The three agree: when the sweep ends well, every address the service
leases holds the target, and then no job of the load test fails because all addresses are poor.

## Key results

- `complete_ok`: a sweep that ends well has seen every address funded
- `AdhocRun.none_underfunded`: no job of the load test is failed for want of a funded address
-/

namespace ContractPinger

open Machine

namespace Sweep

variable {run : Sweep} {workers : List SweepWorker} {toLowerCase : String → String}
  {outcome : Nat → SendRound} {after : Nat → Nat} {remaining : Int}

/-- What a run that ends well has last read of an address. -/
def lastRead (run : Sweep) (workers : List SweepWorker) (after : Nat → Nat) (i : Nat) : Nat :=
  if run.plan workers = [] then run.reads.balances i else after i

/-- What counts as funded is no more than the target. -/
theorem fundedAt_le (h : run.checkTopUp = .ok ()) : run.fundedAt ≤ run.topUpTo := by
  unfold fundedAt
  split
  · exact Nat.le_refl _
  · exact Nat.le_of_lt (checkTopUp_ok h).1

/-- With nothing to send, every address holds the target. -/
theorem topUpTo_le_of_plan_nil (h : run.plan workers = []) {i : Nat} {w : SweepWorker}
    (hw : workers[i]? = some w) : run.topUpTo ≤ run.reads.balances i := by
  by_contra hshort
  have hmem : { «to» := w.worker.address, value := run.topUpTo - run.reads.balances i } ∈
      run.plan workers := by
    rw [plan, List.mem_filterMap]
    refine ⟨(w, i), List.mk_mem_zipIdx_iff_getElem?.mpr hw, if_pos (Nat.lt_of_not_le hshort)⟩
  rw [h] at hmem
  cases hmem

/-- Where nobody is short after the loop, every address is funded. -/
theorem fundedAt_le_of_checkFunded (h : run.checkFunded workers after = .ok ()) {i : Nat}
    {w : SweepWorker} (hw : workers[i]? = some w) : run.fundedAt ≤ after i := by
  by_contra hshort
  have hmem : w ∈ run.stillShort workers after := by
    rw [stillShort, List.mem_map]
    refine ⟨(w, i), List.mem_filter.mpr ⟨List.mk_mem_zipIdx_iff_getElem?.mpr hw, ?_⟩, rfl⟩
    exact decide_eq_true (Nat.lt_of_not_le hshort)
  unfold checkFunded at h
  dsimp only at h
  rw [if_pos (List.length_pos_of_mem hmem)] at h
  cases h

/-- A run that ends well has seen every address funded, if it is no dry run. -/
theorem complete_ok (h : run.complete toLowerCase outcome after remaining = .ok ())
    (hlive : run.args.dryRun = false) :
    ∃ workers, run.prepare toLowerCase = .ok workers ∧
      ∀ i w, workers[i]? = some w → run.fundedAt ≤ run.lastRead workers after i := by
  simp only [complete, Except.bind_eq_ok_iff] at h
  obtain ⟨workers, hprepare, transfers, hmain, h⟩ := h
  refine ⟨workers, hprepare, fun i w hw => ?_⟩
  unfold lastRead
  split
  · -- nothing to send: every balance is at the target already
    rename_i hnothing
    exact (fundedAt_le (prepare_checkTopUp hprepare)).trans (topUpTo_le_of_plan_nil hnothing hw)
  · -- something was sent: the run reads the balances again, and checks them
    rename_i hsome
    rw [if_neg (by simp [hsome, hlive])] at h
    unfold conclude at h
    split at h
    · cases h
    · simp only [Except.bind_eq_ok_iff] at h
      obtain ⟨_, _, hfunded⟩ := h
      exact fundedAt_le_of_checkFunded hfunded hw

end Sweep

/-! ## The workflow -/

/-- What the sizing, the sweep and the service of a run of the workflow share. -/
structure AdhocRun (run : Sweep) (s : Setup) (jobs gasPerRun gasMargin : Nat) (band : ℚ) :
    Prop where
  shares : run.Shares s
  /-- The networks to choose from are dev and testnet. -/
  network : s.environment ≠ .mainnet ∧ run.args.envs = [s.environment.name]
  sized : ∃ target : Nat, topUpTarget s.env.bidirectional.minBalanceWei jobs s.paths gasPerRun
    gasMargin band = some target ∧ run.args.topUp = some target
  allPaths : run.args.paths = none
  live : run.args.dryRun = false
  /-- An account is that of one path. -/
  distinct : ∀ solana, s.solana = .ok solana →
    ((buildPaths s.env.bidirectional.pathPrefix s.paths).map fun path =>
      (deriveWorker s.libs solana path).address).Nodup

namespace AdhocRun

variable {run : Sweep} {s : Setup} {jobs gasPerRun gasMargin : Nat} {band : ℚ}
  {toLowerCase : String → String} {outcome : Nat → SendRound} {after : Nat → Nat}
  {remaining : Int} {held : Hex → Nat} {solana : SolanaContext}

/-- Every address the service is to lease holds the target. -/
theorem funded (h : AdhocRun run s jobs gasPerRun gasMargin band)
    (hok : run.complete toLowerCase outcome after remaining = .ok ())
    (hheld : ∀ workers, run.prepare toLowerCase = .ok workers →
      ∀ i w, workers[i]? = some w → run.lastRead workers after i ≤ held w.worker.address)
    (hsolana : s.solana = .ok solana) :
    ∀ path ∈ buildPaths s.env.bidirectional.pathPrefix s.paths,
      Rounding.halfEven (sizedTarget s.env.bidirectional.minBalanceWei jobs s.paths
        gasPerRun gasMargin band) ≤ held (deriveWorker s.libs solana path).address := by
  intro path hpath
  obtain ⟨workers, hprepare, hfunded⟩ := Sweep.complete_ok hok h.live
  obtain ⟨envs, requester, henvs, hrequester, hderived, _⟩ := Sweep.prepare_ok hprepare
  -- the sweep derives the address of the path, for the network of the service
  have hnetworks : envs = [s.environment] := by
    rw [Sweep.networks, h.network.2] at henvs
    revert henvs
    cases s.environment <;> intro henvs <;> exact (Except.ok.inj henvs).symm
  obtain ⟨own, hown, rfl⟩ := Setup.solana_ok hsolana
  obtain rfl : own = requester := Except.ok.inj (hown.symm.trans (h.shares.requester _ hrequester))
  rw [Sweep.deriveAll_eq h.allPaths, hnetworks, List.flatMap_singleton] at hderived
  have hpaths : run.env.bidirectional.paths = s.paths := by
    rw [h.shares.paths, Setup.paths, if_neg h.network.1]
  let context : SolanaContext :=
    { programId := s.libs.contractAddress s.environment
      rootPublicKey := s.env.solRootPublicKey
      requester := own }
  have hmem : ⟨deriveWorker s.libs context path, s.environment⟩ ∈ workers := by
    rw [← Except.ok.inj hderived, Sweep.addresses, deriveWorkerAddresses, h.shares.libs,
      h.shares.pathPrefix, h.shares.rootPublicKey, hpaths]
    exact List.mem_map_of_mem (List.mem_map_of_mem hpath)
  obtain ⟨i, hi⟩ := List.mem_iff_getElem?.mp hmem
  obtain ⟨target, htarget, htopUp⟩ := h.sized
  -- which holds the target that was printed
  have hfundedAt : run.fundedAt = target := by
    rw [Sweep.fundedAt, Sweep.topUpTo, htopUp]
    rfl
  have hle := (hfunded i _ hi).trans (hheld workers hprepare i _ hi)
  rw [hfundedAt] at hle
  rw [← topUpTarget_eq htarget]
  exact_mod_cast hle

/-- While jobs have yet to pay, some address holds the floor and the gas of one more. -/
theorem exists_enough (h : AdhocRun run s jobs gasPerRun gasMargin band)
    (hok : run.complete toLowerCase outcome after remaining = .ok ())
    (hheld : ∀ workers, run.prepare toLowerCase = .ok workers →
      ∀ i w, workers[i]? = some w → run.lastRead workers after i ≤ held w.worker.address)
    (hsolana : s.solana = .ok solana) {now : Millis} {w : FundedService}
    (hreach : ReachableUnder (FundedService.step s)
      (FundedService.Affordable s (gasPerRun * gasMargin))
      (.new s now fun path => held (deriveWorker s.libs solana path).address) w)
    (hspent : w.spent.length < jobs) :
    ∃ path ∈ w.world.pool.paths,
      FundedService.enough s (gasPerRun * gasMargin) ≤ w.balances path := by
  -- a target is computed for one path at least
  have hpaths : 0 < s.paths := by
    obtain ⟨target, htarget, _⟩ := h.sized
    unfold topUpTarget at htarget
    split at htarget
    · cases htarget
    · rename_i hsome
      exact Nat.pos_of_ne_zero hsome
  have hfunded := h.funded hok hheld hsolana
  exact FundedService.rich_reachable (fun _ hfrugal hlength =>
    FundedService.enough_after hpaths hfunded hfrugal hlength) hreach hspent

/-- So no job is failed for want of a funded address. -/
theorem reason_ne (h : AdhocRun run s jobs gasPerRun gasMargin band)
    (hok : run.complete toLowerCase outcome after remaining = .ok ())
    (hheld : ∀ workers, run.prepare toLowerCase = .ok workers →
      ∀ i w, workers[i]? = some w → run.lastRead workers after i ≤ held w.worker.address)
    (hsolana : s.solana = .ok solana) {now : Millis} {w : FundedService}
    (hreach : ReachableUnder (FundedService.step s)
      (FundedService.Affordable s (gasPerRun * gasMargin))
      (.new s now fun path => held (deriveWorker s.libs solana path).address) w)
    (hjobs : w.world.frames.length ≤ jobs) {r : JobRecord} (hr : r ∈ w.world.jobs.jobs) :
    r.failureReason ≠ some .allWorkersUnderfunded := by
  intro hreason
  -- the reason is written only for a lease that the pool refused
  have hrefused : (r.id, .rejected (.noWorkerAvailable .allUnderfunded)) ∈
      w.world.pool.settled :=
    World.refused_of_record (FundedService.world_reachable hreach) hr hreason
  exact FundedService.rejects_reachable
    (fun _ hserved => h.exists_enough hok hheld hsolana hserved) hreach hjobs _ _ hrefused rfl

/-- A leased worker has the address that is derived for its path. -/
theorem leased_address (hsolana : s.solana = .ok solana) {now : Millis} {w : World}
    (hreach : Reachable (World.step s) (World.new s now) w) {job : Nat} {path : String}
    (hholds : w.Holds job path) :
    path ∈ w.pool.paths ∧ w.pool.address path = (deriveWorker s.libs solana path).address := by
  have hleases := World.leaseInv_reachable hreach
  obtain ⟨hpath, hfulfilled⟩ := World.grantInv_reachable hreach job path
    (hleases.ledger.mem_settled ((hleases.holds_iff job path).mp hholds))
  obtain ⟨own, hown, haddress⟩ :=
    ((World.addressInv_reachable hreach).fulfilled hfulfilled).address hpath
  obtain rfl : own = solana := Except.ok.inj (hown.symm.trans hsolana)
  exact ⟨hpath, haddress⟩

/-- A funding step that ends well is enough for the load test. Every address its service has
    paths for, and so every one it leases, holds the target that was printed; and in every run
    of the service, while jobs have yet to pay, some address holds the floor and the gas of one
    more, and no job is failed for want of a funded address. -/
theorem none_underfunded (h : AdhocRun run s jobs gasPerRun gasMargin band)
    (hok : run.complete toLowerCase outcome after remaining = .ok ())
    (hheld : ∀ workers, run.prepare toLowerCase = .ok workers →
      ∀ i w, workers[i]? = some w → run.lastRead workers after i ≤ held w.worker.address)
    (hsolana : s.solana = .ok solana) {now : Millis} {w : FundedService}
    (hreach : ReachableUnder (FundedService.step s)
      (FundedService.Affordable s (gasPerRun * gasMargin))
      (.new s now fun path => held (deriveWorker s.libs solana path).address) w) :
    (∀ target, topUpTarget s.env.bidirectional.minBalanceWei jobs s.paths gasPerRun gasMargin
        band = some target →
      (∀ path ∈ w.world.pool.paths,
        target ≤ held (deriveWorker s.libs solana path).address) ∧
      ∀ job path, w.world.Holds job path → target ≤ held (w.world.pool.address path)) ∧
    (w.spent.length < jobs → ∃ path ∈ w.world.pool.paths,
      FundedService.enough s (gasPerRun * gasMargin) ≤ w.balances path) ∧
    (w.world.frames.length ≤ jobs → ∀ r ∈ w.world.jobs.jobs,
      r.failureReason ≠ some .allWorkersUnderfunded) := by
  have hworld := FundedService.world_reachable hreach
  refine ⟨fun target htarget => ?_, h.exists_enough hok hheld hsolana hreach,
    fun hjobs _ hr => h.reason_ne hok hheld hsolana hreach hjobs hr⟩
  -- the sweep ended well, so it left the target on every address of the pool
  have hfunded : ∀ path ∈ w.world.pool.paths,
      target ≤ held (deriveWorker s.libs solana path).address := by
    rw [(World.addressInv_reachable hworld).paths, topUpTarget_eq htarget]
    exact h.funded hok hheld hsolana
  refine ⟨hfunded, fun job path hholds => ?_⟩
  -- what a job holds is one of them
  obtain ⟨hpath, haddress⟩ := leased_address hsolana hworld hholds
  rw [haddress]
  exact hfunded path hpath

/-! ## A load test of three jobs on two addresses -/

/-- The deployment of two paths, with a node and a wallet. -/
def threeJobsSetup : Setup :=
  { FundedService.twoPathsSetup with
    env :=
      { FundedService.twoPathsSetup.env with
        ethRpcUrlSepolia := "http://localhost:8545"
        funding := { key := some "0x01", topUp := 2000000000000000 } } }

/-- The sweep finds both addresses empty, and fills them to the target. -/
def threeJobsSweep : Sweep where
  env := threeJobsSetup.env
  libs := threeJobsSetup.libs
  args := { envs := ["dev"], topUp := some 2093600000000000 }
  reads :=
    { chainId := Environment.dev.chainId
      replies := fun _ => .unreachable
      balances := fun _ => 0
      maxFeePerGas := 1
      sourceBalance := 1000000000000000000 }

/-- The sample library derives another address for every path. -/
theorem threeJobs_distinct (solana : SolanaContext) :
    ((buildPaths threeJobsSetup.env.bidirectional.pathPrefix threeJobsSetup.paths).map
      fun path => (deriveWorker threeJobsSetup.libs solana path).address).Nodup := by
  show ["0xload-0", "0xload-1"].Nodup
  decide

/-- The sweep and the service of the sample belong to one run. -/
theorem threeJobs_adhocRun :
    AdhocRun threeJobsSweep threeJobsSetup 3 23400000000000 2 (2 / 1000) where
  shares := Sweep.shares_of_env rfl rfl (by decide)
  network := ⟨by decide, rfl⟩
  sized := ⟨2093600000000000, by decide +kernel, rfl⟩
  allPaths := rfl
  live := rfl
  distinct := fun solana _ => threeJobs_distinct solana

/-- What the addresses hold once its transfers have landed. -/
def threeJobsHeld (_ : Hex) : Nat := 2093600000000000

/-- The transfers are mined, and the wallet left above its reserve. -/
theorem threeJobs_complete : threeJobsSweep.complete String.toLower
    (fun _ => .receipt { success := true, fee := 21000 }) (fun _ => 2093600000000000)
    500000000000000000 = .ok () := by
  decide +kernel

/-- What the sample's addresses hold is no less than the sweep read of them last. -/
theorem threeJobs_held (workers : List SweepWorker)
    (_ : threeJobsSweep.prepare String.toLower = .ok workers) (i : Nat) (w : SweepWorker)
    (_ : workers[i]? = some w) :
    threeJobsSweep.lastRead workers (fun _ => 2093600000000000) i ≤
      threeJobsHeld w.worker.address := by
  unfold Sweep.lastRead
  split
  · exact Nat.zero_le _
  · exact Nat.le_refl _

/-- The service that leases the addresses, when the first job has paid. -/
def threeJobsStart : FundedService :=
  .new threeJobsSetup 0 fun path =>
    threeJobsHeld (deriveWorker threeJobsSetup.libs ⟨"dev", none, "[1]"⟩ path).address

def threeJobsService : FundedService :=
  (exec (FundedService.step threeJobsSetup) threeJobsStart FundedService.paidRun).getD
    threeJobsStart

/-- Both leased addresses hold the target, and neither job is failed for want of funds. -/
theorem threeJobs_none_underfunded :
    (∀ job path, threeJobsService.world.Holds job path →
      (2093600000000000 : ℤ) ≤ threeJobsHeld (threeJobsService.world.pool.address path)) ∧
    threeJobsService.world.jobs.jobs.length = 2 ∧
    (∃ path ∈ threeJobsService.world.pool.paths,
      FundedService.enough threeJobsSetup (23400000000000 * 2) ≤ threeJobsService.balances path) ∧
    ∀ r ∈ threeJobsService.world.jobs.jobs, r.failureReason ≠ some .allWorkersUnderfunded := by
  have hexec : exec (FundedService.step threeJobsSetup) threeJobsStart FundedService.paidRun =
      some threeJobsService := exec_getD (by decide +kernel) _
  have hreach : ReachableUnder (FundedService.step threeJobsSetup)
      (FundedService.Affordable threeJobsSetup (23400000000000 * 2)) threeJobsStart
      threeJobsService :=
    .of_exec hexec (by decide +kernel)
  obtain ⟨hfunded, hrich, hrecords⟩ :=
    none_underfunded threeJobs_adhocRun threeJobs_complete threeJobs_held rfl hreach
  exact ⟨(hfunded 2093600000000000 (by decide +kernel)).2, by decide +kernel,
    hrich (by decide +kernel), hrecords (by decide +kernel)⟩

end AdhocRun

end ContractPinger
