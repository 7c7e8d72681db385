import ContractPinger.Spec.Addresses
import ContractPinger.Spec.CrossCheck

/-!
# The addresses of the sweep and of the service

The sweep and the service derive their addresses with the same function from the same
configuration, but each has a path count of its own: the constructor of `BidirectionalService`
holds mainnet to one path, and the sweep reads the configured count for every network. A
network that `--env` names twice is swept twice.

## Key results

- `deriveAll_eq`: what a sweep without `--paths` derives
- `swept_eq_leased_iff`: exactly when it is what the service leases
- `main_transfers`: what is sent goes to the addresses derived
- `mainnet_sweep_differs`: under the default configuration mainnet's is not
-/

namespace ContractPinger

open Machine

namespace Sweep

/-- What the addresses follow from is the same for the sweep and the service. -/
structure Shares (run : Sweep) (s : Setup) : Prop where
  libs : run.libs = s.libs
  pathPrefix : run.env.bidirectional.pathPrefix = s.env.bidirectional.pathPrefix
  paths : run.env.bidirectional.paths = s.env.bidirectional.paths
  rootPublicKey : run.env.solRootPublicKey = s.env.solRootPublicKey
  requester : ∀ requester, run.requester = .ok requester →
    s.libs.publicKeyOf s.env.solSk = .ok requester

/-- The run derives these workers for the networks of `--env`. -/
def Derives (run : Sweep) (envs : List Environment) (workers : List SweepWorker) : Prop :=
  ∃ requester, run.networks = .ok envs ∧ run.requester = .ok requester ∧
    run.deriveAll requester envs = .ok workers

/-- With one environment for both, they share what they need to share. -/
theorem shares_of_env {run : Sweep} {s : Setup} (hlibs : run.libs = s.libs)
    (henv : run.env = s.env) (hsk : s.env.solSk ≠ "") : run.Shares s where
  libs := hlibs
  pathPrefix := by rw [henv]
  paths := by rw [henv]
  rootPublicKey := by rw [henv]
  requester requester h := by
    simp only [Sweep.requester, Except.bind_eq_ok_iff] at h
    obtain ⟨derived, hderived, _, _, h⟩ := h
    rw [derivedRequester, henv, if_neg hsk, hlibs, Except.mapError_eq_ok_iff,
      Except.map_eq_ok_iff] at hderived
    obtain ⟨own, hown, rfl⟩ := hderived
    -- the public key comes before what is configured
    have hfirst : ((some own <|> run.env.funding.requesterPubkey).getD "") = own := rfl
    rw [hfirst] at h
    split at h
    · cases h
    · rw [Except.mapError_eq_ok_iff, Except.map_eq_ok_iff] at h
      obtain ⟨_, _, rfl⟩ := h
      exact hown

/-! ## What is derived -/

variable {run : Sweep} {requester : String}

/-- The first addresses of a network, as many as there are paths. -/
def addresses (run : Sweep) (requester : String) (network : Environment) (paths : Nat) :
    List DerivedWorker :=
  deriveWorkerAddresses run.libs
    { programId := run.libs.contractAddress network
      rootPublicKey := run.env.solRootPublicKey
      requester }
    (buildPaths run.env.bidirectional.pathPrefix paths)

@[simp] theorem length_addresses (network : Environment) (paths : Nat) :
    (run.addresses requester network paths).length = paths := by
  simp [addresses, deriveWorkerAddresses, buildPaths]

/-- Without a count on the command line, the paths are those of the environment. -/
theorem derive_eq (hpaths : run.args.paths = none) (network : Environment) :
    run.derive requester network =
      .ok ((run.addresses requester network run.env.bidirectional.paths).map fun worker =>
        { worker, env := network }) := by
  -- without `--paths` the configured count is expected, and derived
  have hexpected : run.expectedWorkers = .count run.env.bidirectional.paths := by
    rw [expectedWorkers, hpaths]
    rfl
  have hlength : (run.addresses requester network _).length = run.env.bidirectional.paths :=
    length_addresses network _
  rw [addresses] at hlength
  simp only [derive, hexpected, PathsArg.slots, PathsArg.equals, hlength, beq_self_eq_true,
    ↓reduceIte]
  rfl

/-- A sweep without `--paths` derives the configured number of addresses for each network. -/
theorem deriveAll_eq (hpaths : run.args.paths = none) (envs : List Environment) :
    run.deriveAll requester envs = .ok (envs.flatMap fun network =>
      (run.addresses requester network run.env.bidirectional.paths).map fun worker =>
        { worker, env := network }) := by
  induction envs with
  | nil => rfl
  | cons network rest ih =>
    rw [deriveAll, derive_eq hpaths, ih]
    rfl

/-- The workers of a network, in either half of the list. -/
theorem ofNetwork_append (workers workers' : List SweepWorker) (network : Environment) :
    ofNetwork (workers ++ workers') network =
      ofNetwork workers network ++ ofNetwork workers' network := by
  simp [ofNetwork]

/-- Workers derived for a network are all of that one. -/
theorem ofNetwork_tagged (addresses : List DerivedWorker) (e network : Environment) :
    ofNetwork (addresses.map fun worker => { worker, env := e }) network =
      if e = network then addresses else [] := by
  split
  · rename_i heq
    simp [ofNetwork, List.filter_map, Function.comp_def, heq]
  · rename_i hne
    simp [ofNetwork, List.filter_map, Function.comp_def, hne]

/-- The workers of a network, once for each time that `--env` names it. -/
theorem ofNetwork_flatMap (addresses : Environment → List DerivedWorker)
    (envs : List Environment) (network : Environment) :
    ofNetwork (envs.flatMap fun e => (addresses e).map fun worker => { worker, env := e })
        network =
      (List.replicate (envs.count network) (addresses network)).flatten := by
  induction envs with
  | nil => rfl
  | cons e rest ih =>
    rw [List.flatMap_cons, ofNetwork_append, ofNetwork_tagged, ih, List.count_cons]
    -- one occurrence more, or another network in between
    by_cases heq : e = network
    · subst heq
      simp [List.replicate_succ]
    · simp [heq]

/-- What a sweep without `--paths` derives for one network. -/
theorem Derives.ofNetwork_eq {envs : List Environment} {workers : List SweepWorker}
    (hpaths : run.args.paths = none) (h : run.Derives envs workers) (network : Environment) :
    ∃ requester, run.requester = .ok requester ∧ ofNetwork workers network =
      (List.replicate (envs.count network)
        (run.addresses requester network run.env.bidirectional.paths)).flatten := by
  obtain ⟨requester, _, hrequester, hworkers⟩ := h
  rw [deriveAll_eq hpaths, Except.ok.injEq] at hworkers
  subst hworkers
  exact ⟨requester, hrequester, ofNetwork_flatMap _ envs network⟩

/-- Whatever is sent goes to an address derived, and fills it to the target at most. -/
theorem main_transfers {toLowerCase : String → String} {transfers : List Transfer}
    (h : run.main toLowerCase = .ok transfers) :
    ∃ envs workers, run.Derives envs workers ∧ ∀ transfer ∈ transfers,
      (∃ w ∈ workers, w.worker.address = transfer.to) ∧
        0 < transfer.value ∧ transfer.value ≤ run.topUpTo := by
  obtain ⟨account, workers, hprepare, _, rfl⟩ := main_ok h
  obtain ⟨envs, requester, henvs, hrequester, hworkers, _⟩ := prepare_ok hprepare
  refine ⟨envs, workers, ⟨requester, henvs, hrequester, hworkers⟩, fun transfer hmem => ?_⟩
  -- a dry run sends nothing, any other sends its plan
  have hplan : transfer ∈ run.plan workers := by
    split at hmem
    · cases hmem
    · exact hmem
  obtain ⟨w, i, hw, hbelow, rfl⟩ := mem_plan hplan
  refine ⟨⟨w, List.mem_of_getElem? hw, rfl⟩, ?_, ?_⟩
  · show 0 < run.topUpTo - run.reads.balances i
    omega
  · show run.topUpTo - run.reads.balances i ≤ run.topUpTo
    omega

end Sweep

/-! ## What the service leases -/

/-- The context the service derives with, when it has one. -/
theorem Setup.solana_ok {s : Setup} {solana : SolanaContext} (h : s.solana = .ok solana) :
    ∃ requester, s.libs.publicKeyOf s.env.solSk = .ok requester ∧
      solana = { programId := s.libs.contractAddress s.environment
                 rootPublicKey := s.env.solRootPublicKey
                 requester } := by
  unfold Setup.solana Env.solana at h
  split at h
  · cases h
  · split at h
    · cases h
    · split at h
      · cases h
      · rename_i requester hrequester
        exact ⟨requester, hrequester, (Except.ok.inj h).symm⟩

/-- The pool of a service that has derived its addresses, in the words of the sweep. -/
theorem Sweep.Shares.book_eq {run : Sweep} {s : Setup} {start : Millis} {w : World}
    {requester : String} (h : run.Shares s) (hrequester : run.requester = .ok requester)
    (hreach : Reachable (World.step s) (World.new s start) w)
    (hready : .fulfilled ∈ w.derivations) :
    w.pool.book = run.addresses requester s.environment s.paths := by
  have hinv := World.addressInv_reachable hreach
  obtain ⟨solana, hsolana, hbook⟩ := hinv.fulfilled hready
  obtain ⟨own, hown, rfl⟩ := Setup.solana_ok hsolana
  have hsame : own = requester := Except.ok.inj (hown.symm.trans (h.requester _ hrequester))
  subst hsame
  rw [hbook, hinv.paths, Sweep.addresses, h.libs, h.pathPrefix, h.rootPublicKey]

/-- Without `--paths`, the sweep funds what the service leases if and only if mainnet is left
    out, or configured to one path, and the network is named once (or has no path at all). -/
theorem swept_eq_leased_iff {run : Sweep} {s : Setup} {start : Millis} {w : World}
    {envs : List Environment} {workers : List SweepWorker} (hshares : run.Shares s)
    (hpaths : run.args.paths = none) (hderives : run.Derives envs workers)
    (hnetwork : s.environment ∈ envs)
    (hreach : Reachable (World.step s) (World.new s start) w)
    (hready : .fulfilled ∈ w.derivations) :
    Sweep.ofNetwork workers s.environment = w.pool.book ↔
      (s.environment = .mainnet → s.env.bidirectional.paths = 1) ∧
        (envs.count s.environment = 1 ∨ s.env.bidirectional.paths = 0) := by
  obtain ⟨requester, hrequester, hswept⟩ := hderives.ofNetwork_eq hpaths s.environment
  have hcount : 0 < envs.count s.environment := List.count_pos_iff.mpr hnetwork
  rw [hswept, hshares.book_eq hrequester hreach hready, hshares.paths]
  generalize envs.count s.environment = count at hcount
  have hlength : ((List.replicate count (run.addresses requester s.environment
      s.env.bidirectional.paths)).flatten).length = count * s.env.bidirectional.paths := by
    simp
  constructor
  · intro heq
    -- the two lists have one length
    rw [heq, Sweep.length_addresses, Setup.paths] at hlength
    split at hlength
    · -- mainnet has one path, so its slots and its occurrences multiply to one
      rename_i hmainnet
      have hone := Nat.eq_one_of_mul_eq_one_right hlength.symm
      have hpath := Nat.eq_one_of_mul_eq_one_left hlength.symm
      exact ⟨fun _ => hpath, .inl hone⟩
    · -- any other network has the configured paths, for one occurrence
      rename_i hother
      refine ⟨fun hmainnet => absurd hmainnet hother, ?_⟩
      by_cases hzero : s.env.bidirectional.paths = 0
      · exact .inr hzero
      · exact .inl ((Nat.mul_eq_right hzero).mp hlength.symm)
  · rintro ⟨hmainnet, hone | hzero⟩
    · have hsame : s.paths = s.env.bidirectional.paths := by
        rw [Setup.paths]
        split
        · rename_i henv
          exact (hmainnet henv).symm
        · rfl
      rw [hone, hsame]
      simp
    · -- without paths neither has an address, and mainnet has one
      have hsame : s.paths = 0 := by
        rw [Setup.paths, if_neg, hzero]
        intro henv
        have hpath := hmainnet henv
        omega
      have hempty : run.addresses requester s.environment 0 = [] := rfl
      rw [hsame, hzero, hempty]
      simp

/-! ## A sweep of testnet and one of mainnet -/

/-- A service with the default path count. -/
def sharedSetup (environment : Environment) : Setup where
  env :=
    { World.sampleSetup.env with
      ethRpcUrlSepolia := "http://localhost:8545"
      ethRpcUrlMainnet := "http://localhost:8546"
      solRpcUrlMainnet := "http://localhost:8898"
      bidirectional := {}
      funding := { key := some "0x01" } }
  libs := World.sampleSetup.libs
  environment

/-- The sweep of its network, under its configuration. -/
def sharedSweep (environment : Environment) : Sweep where
  env := (sharedSetup environment).env
  libs := (sharedSetup environment).libs
  args := { envs := [environment.name] }
  reads :=
    { chainId := environment.chainId
      replies := fun _ => .unreachable
      balances := fun _ => 0
      maxFeePerGas := 1
      sourceBalance := 1000000000000000000 }

/-- A round of `ensureAddresses` for each path, and one that sets the addresses. -/
def derivingRun (environment : Environment) : List Action :=
  .getWorkers ::
    List.replicate ((sharedSetup environment).paths + 1) (.resumeDerivation 0 .resume)

/-- The state that run ends in. -/
def derivedWorld (environment : Environment) : World :=
  (exec (World.step (sharedSetup environment)) (World.new (sharedSetup environment) 0)
    (derivingRun environment)).getD (World.new (sharedSetup environment) 0)

/-- The sample sweep and service are configured alike. -/
theorem sharedSweep_shares (environment : Environment) :
    (sharedSweep environment).Shares (sharedSetup environment) :=
  Sweep.shares_of_env rfl rfl fun hsk => absurd hsk (by decide : "[1]" ≠ "")

/-- On testnet the sweep derives the addresses the service has. -/
theorem testnet_sweep_agrees : ∃ workers, (sharedSweep .testnet).Derives [.testnet] workers ∧
    Sweep.ofNetwork workers .testnet = (derivedWorld .testnet).pool.book := by
  have hexec : exec (World.step (sharedSetup .testnet)) (World.new (sharedSetup .testnet) 0)
      (derivingRun .testnet) = some (derivedWorld .testnet) := exec_getD (by decide +kernel) _
  have hderives : (sharedSweep .testnet).Derives [.testnet] _ :=
    ⟨"[1]", rfl, rfl, Sweep.deriveAll_eq rfl _⟩
  have hready : .fulfilled ∈ (derivedWorld .testnet).derivations := by decide +kernel
  refine ⟨_, hderives, ?_⟩
  exact (swept_eq_leased_iff (sharedSweep_shares .testnet) rfl hderives List.mem_cons_self
    (reachable_of_exec hexec) hready).mpr ⟨nofun, .inl rfl⟩

/-- On mainnet it derives ten and pays them all, and the service has one. -/
theorem mainnet_sweep_differs :
    (sharedSweep .mainnet).Shares (sharedSetup .mainnet) ∧
    Reachable (World.step (sharedSetup .mainnet)) (World.new (sharedSetup .mainnet) 0)
      (derivedWorld .mainnet) ∧
    .fulfilled ∈ (derivedWorld .mainnet).derivations ∧
    (∃ workers, (sharedSweep .mainnet).Derives [.mainnet] workers ∧
      Sweep.ofNetwork workers .mainnet ≠ (derivedWorld .mainnet).pool.book) ∧
    (derivedWorld .mainnet).pool.book = [{ path := "load-0", address := "0xload-0" }] ∧
    ((sharedSweep .mainnet).main String.toLower).map (fun transfers =>
      transfers.map Transfer.to) = .ok ["0xload-0", "0xload-1", "0xload-2", "0xload-3",
        "0xload-4", "0xload-5", "0xload-6", "0xload-7", "0xload-8", "0xload-9"] := by
  have hexec : exec (World.step (sharedSetup .mainnet)) (World.new (sharedSetup .mainnet) 0)
      (derivingRun .mainnet) = some (derivedWorld .mainnet) := exec_getD (by decide +kernel) _
  have hbook : (derivedWorld .mainnet).pool.book =
      [{ path := "load-0", address := "0xload-0" }] := by decide +kernel
  refine ⟨sharedSweep_shares .mainnet, reachable_of_exec hexec, by decide +kernel, ?_, hbook,
    by decide +kernel⟩
  refine ⟨_, ⟨"[1]", rfl, rfl, Sweep.deriveAll_eq rfl _⟩, fun heq => ?_⟩
  -- ten addresses against one
  have hlength := congrArg List.length heq
  rw [hbook, Sweep.ofNetwork_flatMap] at hlength
  exact absurd hlength (by decide +kernel)

end ContractPinger
