import ContractPinger.Spec.ChainCounts
import ContractPinger.Spec.PoolSteps

/-!
# Nonce safety

A worker stays leased, or quarantined, for as long as a transaction from its address may be
outstanding: that is why `buildTransaction` may take the latest nonce. The lease holds up.
A quarantine is lifted by counts that can be older than the quarantine, and that say nothing
of a transaction that has not reached the node yet. Here the service relies on more than it
checks.

## Key results

- `Current`: what the service relies on when it applies counts
- `nonceInv_step`: with it, every step keeps every live transaction accounted for
- `nonce_safety`: leases and nonces are safe in every run whose counts are current
- `current_of_fresh`: the counts that an account still has are current, with nothing in flight
- `stale_counts_reuse_nonce`: without it, two transactions carry one nonce
-/

namespace ContractPinger

open Machine

/-- Distinct paths of the service derive distinct addresses. -/
def Setup.DistinctAddresses (s : Setup) : Prop :=
  ∀ solana, s.solana = .ok solana →
    ∀ p ∈ buildPaths s.env.bidirectional.pathPrefix s.paths,
      ∀ q ∈ buildPaths s.env.bidirectional.pathPrefix s.paths,
        (deriveWorker s.libs solana p).address = (deriveWorker s.libs solana q).address → p = q

namespace Frame

variable {s : Setup} {view : RunView} {job : Nat} {f : Frame} {reply : Reply}
  {next : Frame × List Effect} {built : BuiltTransaction} {serialized : Hex}

/-- Past a `throwIfAborted` a job broadcasts only if it was to. -/
theorem proceed_broadcasting {pc : Pc} {before after : List Effect}
    (h : (f.proceed pc before after).1.pc = .broadcasting built serialized) :
    pc = .broadcasting built serialized := by
  unfold proceed at h
  split at h
  · cases h
  · exact h

/-- From `leasing` on. -/
theorem resumeLeased_broadcasting {path : String} {pc : Pc}
    (h : f.resumeLeased s view job path pc reply = some next)
    (hpc : next.1.pc = .broadcasting built serialized) :
    ∃ signature, pc = .attachingSignature built signature ∧ next.1.worker = f.worker := by
  cases resumeLeased_stretch h
  case verified built' signature _ _ _ =>
    obtain ⟨rfl, _⟩ := Pc.broadcasting.inj hpc
    exact ⟨signature, rfl, rfl⟩
  case funded => cases proceed_broadcasting hpc
  case built => cases proceed_broadcasting hpc
  case nonceFailed | estimateFailed =>
    unfold resumeLeased.buildFailed at hpc
    split at hpc <;> cases hpc
  -- the other ways on lead elsewhere
  all_goals cases hpc

/-- A job comes to its broadcast from the signature it has attached. -/
theorem resume_broadcasting (h : f.resume s view job reply = some next)
    (hpc : next.1.pc = .broadcasting built serialized) :
    ∃ signature, f.pc = .attachingSignature built signature ∧ next.1.worker = f.worker := by
  cases resume_stretch h
  case works hleased => exact resumeLeased_broadcasting hleased hpc
  case asked => cases proceed_broadcasting hpc
  all_goals cases hpc

end Frame

namespace World

/-- What earlier modules have shown of every reachable state. -/
structure Books (s : Setup) (w : World) : Prop where
  leases : w.LeaseInv
  addresses : AddressInv s w
  grants : w.GrantInv
  guarded : w.pool.Guarded

/-- The service's own invariants, in every reachable state. -/
theorem books_reachable {s : Setup} {start : Millis} {w : World}
    (h : Reachable (step s) (World.new s start) w) : Books s w where
  leases := leaseInv_reachable h
  addresses := addressInv_reachable h
  grants := grantInv_reachable h
  guarded := guarded_reachable h

/-- The job holds the path and may have a transaction on the chain. -/
def OnChain (w : World) (job : Nat) (path : String) : Prop :=
  ∃ f, w.frames[job]? = some f ∧ f.pc.onChain = true ∧ f.worker = some path

/-- A job that stands on the chain with a worker is on the chain from its address. -/
theorem onChain_of_stands {w : World} {job : Nat} {path : String} {pc : Pc}
    (h : w.stands job = some (pc, some path)) (hpc : pc.onChain = true) : w.OnChain job path := by
  simp only [stands, Option.map_eq_some_iff, Prod.mk.injEq] at h
  obtain ⟨f, hf, rfl, hworker⟩ := h
  exact ⟨f, hf, hpc, hworker⟩

/-- So is one that is broadcasting. -/
theorem onChain_of_broadcasting {w : World} {job nonce : Nat} {path : String}
    (h : w.broadcasting job = some (path, nonce)) : w.OnChain job path := by
  simp only [broadcasting, Option.bind_eq_some_iff] at h
  obtain ⟨f, hf, h⟩ := h
  split at h
  · rename_i hpc
    simp only [Option.map_eq_some_iff, Prod.mk.injEq] at h
    obtain ⟨p, hworker, rfl, _⟩ := h
    exact ⟨f, hf, by rw [hpc]; rfl, hworker⟩
  · cases h

/-- A job keeps its lease for as long as it may have a transaction on the chain. -/
theorem LeaseInv.holds_of_onChain {w : World} (h : w.LeaseInv) {job : Nat} {path : String}
    (hchain : w.OnChain job path) : w.Holds job path := by
  obtain ⟨f, hf, hpc, hworker⟩ := hchain
  -- every `await` of `onChain` lies between the lease and its release
  have hphase : f.phase = .held ∧ f.pc ≠ .ended := by
    unfold Frame.phase
    cases hstands : f.pc <;> simp [hstands, Pc.onChain, Pc.stage, Stage.phase] at hpc ⊢
  have hwf := h.wf f (List.mem_of_getElem? hf)
  simp only [Frame.Wf, hphase.1] at hwf
  exact ⟨f, hf, hphase.2, .inl ⟨hworker, hwf.2⟩⟩

/-- Short of its receipt, a job that goes on stays on the chain or quarantines its worker. -/
theorem onChain_step {s : Setup} {w w' : World} {a : Action} {job : Nat} {path : String}
    (hleases : w.LeaseInv) (haddresses : AddressInv s w) (hpath : path ∈ w.pool.paths)
    (h : w.OnChain job path) (hstep : step s w a = some w')
    (hreceipt : ∀ success, a ≠ .resume job (.receipt success)) :
    w'.OnChain job path ∨ w'.pool.Quarantined path := by
  obtain ⟨f, hf, hpc, hworker⟩ := h
  have hstands : w.stands job = some (f.pc, some path) := by
    rw [stands, hf, ← hworker]
    rfl
  -- only its own resumption moves a job
  by_cases hresumed : a.resumed = some (.job job)
  · obtain ⟨reply, rfl⟩ : ∃ reply, a = .resume job reply := by
      cases a <;> simp [Action.resumed] at hresumed
      exact ⟨_, by rw [hresumed]⟩
    obtain ⟨g, f', effects, hg, hresume, rfl⟩ := step_resume hstep
    have hsame : g = f := Option.some.inj (hg.symm.trans hf)
    subst hsame
    have hlt : job < w.frames.length := (List.getElem?_eq_some_iff.mp hf).1
    have hwf := hleases.wf g (List.mem_of_getElem? hf)
    cases Frame.resume_marks hwf hresume with
    | unmarked _ honChain =>
      rcases honChain hpc with ⟨hpc', hworker'⟩ | ⟨success, rfl⟩
      · -- it goes on, still short of its receipt
        refine .inl ⟨f', ?_, hpc', hworker'.trans hworker⟩
        rw [performAll_frames]
        exact List.getElem?_set_self hlt
      · exact absurd rfl (hreceipt success)
    | reconciled _ _ _ _ hreconciling _ _ =>
      rw [hreconciling] at hpc
      cases hpc
    | refreshed _ _ _ hrefreshing _ _ =>
      rw [hrefreshing] at hpc
      cases hpc
    | tooPoor _ _ _ _ hoff _ _ _ =>
      rw [hoff] at hpc
      cases hpc
    | gaveUp p nonce reason error _ hp _ hcalls =>
      have heq : p = path := Option.some.inj (hp.symm.trans hworker)
      have hcalls : effects = _ := hcalls
      rw [heq] at hcalls
      rw [hcalls]
      -- the `finally` block releases the worker right after, which lifts nothing
      refine .inr ((WorkerPool.Quarantined.congr ?_).mpr
        (WorkerPool.quarantined_quarantine haddresses.paths_nodup hpath nonce))
      exact (WorkerPool.LeasesOnly.release (w.pool.quarantine path nonce) path w.now).standing
  · rcases step_stands hstep hresumed with hsame | ⟨hnone, _⟩
    · exact .inl (onChain_of_stands (hsame.trans hstands) hpc)
    · rw [hstands] at hnone
      cases hnone

/-- A job that is resumed and then sends has held its path, and sent nothing before. -/
theorem broadcasting_step {s : Setup} {w w' : World} {job nonce : Nat} {reply : Reply}
    {path : String} (hleases : w.LeaseInv) (hstep : step s w (.resume job reply) = some w')
    (hsent : w'.broadcasting job = some (path, nonce)) :
    w.Holds job path ∧ ∀ path, ¬ w.OnChain job path := by
  obtain ⟨f, g, effects, hf, hresume, rfl⟩ := step_resume hstep
  have hlt : job < w.frames.length := (List.getElem?_eq_some_iff.mp hf).1
  simp only [broadcasting, performAll_frames, List.getElem?_set_self hlt, Option.bind_some] at hsent
  split at hsent
  · rename_i built serialized hpc
    obtain ⟨_, hworker, heq⟩ := Option.map_eq_some_iff.mp hsent
    obtain ⟨rfl, _⟩ := Prod.mk.inj heq
    -- it comes from attaching the signature, which is not on the chain yet
    obtain ⟨signature, hattaching, hsame⟩ := Frame.resume_broadcasting hresume hpc
    have hwf := hleases.wf f (List.mem_of_getElem? hf)
    have hphase : f.phase = .held := congrArg (fun pc => pc.stage.phase) hattaching
    simp only [Frame.Wf, hphase] at hwf
    refine ⟨⟨f, hf, by simp [hattaching], .inl ⟨hsame ▸ hworker, hwf.2⟩⟩, ?_⟩
    rintro path ⟨f', hf', hchain, _⟩
    obtain rfl := Option.some.inj (hf.symm.trans hf')
    rw [hattaching] at hchain
    cases hchain
  · cases hsent

/-- A step sends one transaction at most. -/
theorem sentBy_cases (w : World) (a : Action) :
    w.sentBy a = [] ∨ ∃ job reply path nonce, a = .resume job reply ∧
      w.broadcasting job = some (path, nonce) ∧
      w.sentBy a = [{ job, address := w.pool.address path, nonce }] := by
  cases a with
  | resume job reply =>
    cases hsent : w.broadcasting job with
    | none => exact .inl (by rw [sentBy, hsent]; rfl)
    | some sent =>
      exact .inr ⟨job, reply, sent.1, sent.2, rfl, hsent, by rw [sentBy, hsent]; rfl⟩
  | _ => exact .inl rfl

namespace Books

variable {s : Setup} {w w' : World} {job : Nat} {path : String}

/-- What is held has been granted. -/
theorem mem_paths (h : Books s w) (hholds : w.Holds job path) :
    path ∈ w.pool.paths ∧ .fulfilled ∈ w.derivations :=
  h.grants job path (h.leases.ledger.mem_settled ((h.leases.holds_iff job path).mp hholds))

/-- Two jobs do not hold one worker. -/
theorem exclusive (h : Books s w) {other : Nat} (hholds : w.Holds job path)
    (hother : w.Holds other path) : other = job :=
  h.leases.ledger.exclusive other job path ((h.leases.holds_iff other path).mp hother)
    ((h.leases.holds_iff job path).mp hholds)

/-- What is held is not quarantined. -/
theorem not_quarantined (h : Books s w) (hholds : w.Holds job path) :
    ¬ w.pool.Quarantined path := by
  obtain ⟨worker, hworker, rfl, hbusy⟩ := h.leases.worker_busy hholds
  exact h.guarded.not_quarantined h.addresses.paths_nodup hworker hbusy

/-- Of two paths of the pool with one address. -/
theorem path_unique (h : Books s w) (hdistinct : s.DistinctAddresses)
    (hfulfilled : .fulfilled ∈ w.derivations) {p q : String} (hp : p ∈ w.pool.paths)
    (hq : q ∈ w.pool.paths) (heq : w.pool.address p = w.pool.address q) : p = q := by
  have hderived := h.addresses.fulfilled hfulfilled
  obtain ⟨solana, hsolana, haddress⟩ := hderived.address hp
  obtain ⟨solana', hsolana', haddress'⟩ := hderived.address hq
  -- both addresses were derived in the one context of the service
  have hsame : solana' = solana := Except.ok.inj (hsolana'.symm.trans hsolana)
  rw [haddress, haddress', hsame] at heq
  have hpaths := h.addresses.paths
  exact hdistinct solana hsolana p (hpaths ▸ hp) q (hpaths ▸ hq) heq

/-- Addresses are derived once. -/
theorem address_eq (h : Books s w) (h' : Books s w') (hfulfilled : .fulfilled ∈ w.derivations)
    (hfulfilled' : .fulfilled ∈ w'.derivations) (path : String) :
    w'.pool.address path = w.pool.address path := by
  obtain ⟨solana, hsolana, hbook⟩ := h.addresses.fulfilled hfulfilled
  obtain ⟨solana', hsolana', hbook'⟩ := h'.addresses.fulfilled hfulfilled'
  have hsame : solana' = solana := Except.ok.inj (hsolana'.symm.trans hsolana)
  have hpaths : w'.pool.paths = w.pool.paths := h'.addresses.paths.trans h.addresses.paths.symm
  refine WorkerPool.address_congr ?_ path
  rw [hbook', hbook, hpaths, hsame]

end Books

end World

namespace Deployment

variable {s : Setup} {d d' : Deployment}

/-! ## What the service relies on -/

/-- The path whose counts the process reads is quarantined, and a transaction from its address
    is in flight or outstanding. -/
def unsettled (d : Deployment) (who : Proc) : Bool :=
  (d.world.reconcilingPath who).any fun path =>
    (d.world.pool.quarantined.any fun w => w.path == path) &&
      d.chain.live.any fun tx => tx.address == d.world.pool.address path

/-- Counts that say that nothing is outstanding are not applied while something may be. -/
def current (d : Deployment) : DeploymentAction → Bool
  | .service action =>
    match action.counts with
    | some (who, latest, pending) => decide (latest < pending) || !d.unsettled who
    | none => true
  | _ => true

/-- The guard of a run. -/
def Current (d : Deployment) (a : DeploymentAction) : Prop := d.current a = true

instance (d : Deployment) (a : DeploymentAction) : Decidable (Current d a) :=
  inferInstanceAs (Decidable (d.current a = true))

/-! ## What a step does -/

/-- The steps of a deployment: the service's own, on answers of the chain, the chain's own, and
    the answers to counts. -/
inductive StepCase (s : Setup) (d : Deployment) : DeploymentAction → Deployment → Prop
  | service (action : Action) (world : World) (reads : Proc → CountReads)
      (answers : d.answers action = true) (step : World.step s d.world action = some world) :
      StepCase s d (.service action) { world, chain := d.chain.send (world.sentBy action), reads }
  | chain (a : DeploymentAction) (chain : Chain) (moves : d.chain.Moves chain) :
      StepCase s d a { d with chain }
  | reads (a : DeploymentAction) (who : Proc) (reads : CountReads) :
      StepCase s d a (d.setReads who reads)

/-- A step is the service's, the chain's or a count taken. -/
theorem step_cases {a : DeploymentAction} (h : step s d a = some d') : StepCase s d a d' := by
  cases a with
  | service action =>
    simp only [step, Option.ite_none_right_eq_some, Option.map_eq_some_iff] at h
    obtain ⟨hanswers, world, hworld, rfl⟩ := h
    -- a process that goes on has its counts forgotten
    cases hresumed : action.resumed with
    | none => exact .service action world d.reads hanswers hworld
    | some who =>
      exact .service action world (Function.update d.reads who {}) hanswers hworld
  | accept tx latest pending =>
    obtain ⟨chain, haccept, rfl⟩ := Option.map_eq_some_iff.mp h
    exact .chain _ chain (Chain.moves_accept haccept)
  | lose tx =>
    obtain ⟨chain, hlose, rfl⟩ := Option.map_eq_some_iff.mp h
    exact .chain _ chain (Chain.moves_lose hlose)
  | mine tx latest pending =>
    obtain ⟨chain, hleave, rfl⟩ := Option.map_eq_some_iff.mp h
    exact .chain _ chain (Chain.moves_leave hleave)
  | drop tx latest pending =>
    obtain ⟨chain, hleave, rfl⟩ := Option.map_eq_some_iff.mp h
    exact .chain _ chain (Chain.moves_leave hleave)
  | recount address latest pending =>
    obtain ⟨chain, hrecount, rfl⟩ := Option.map_eq_some_iff.mp h
    exact .chain _ chain (Chain.moves_recount hrecount)
  | answerLatest who =>
    obtain ⟨path, _, hread⟩ := Option.bind_eq_some_iff.mp h
    obtain ⟨_, heq⟩ := Option.ite_none_left_eq_some.mp hread
    obtain rfl := Option.some.inj heq
    exact .reads _ who _
  | answerPending who =>
    obtain ⟨path, _, hread⟩ := Option.bind_eq_some_iff.mp h
    obtain ⟨_, heq⟩ := Option.ite_none_left_eq_some.mp hread
    obtain rfl := Option.some.inj heq
    exact .reads _ who _

/-- The service of a deployment runs as a service does. -/
theorem books_reachable {start : Millis} {counts : Hex → Nat}
    {guard : Deployment → DeploymentAction → Prop}
    (h : ReachableUnder (step s) guard (new s start counts) d) : World.Books s d.world := by
  have hsimulates : ∃ w, d.world = w ∧ Reachable (World.step s) (World.new s start) w := by
    refine h.simulation (R := fun d w => d.world = w) rfl ?_
    rintro d a d' w rfl _ hstep
    refine ⟨d'.world, rfl, ?_⟩
    cases step_cases hstep with
    | service action world reads _ hworld => exact .tail action .refl trivial hworld
    | chain => exact .refl
    | reads => exact .refl
  obtain ⟨w, rfl, hw⟩ := hsimulates
  exact World.books_reachable hw

/-- The counts that a chain answers say what is outstanding at that instant. -/
theorem consistent_reachable {start : Millis} {counts : Hex → Nat}
    {guard : Deployment → DeploymentAction → Prop}
    (h : ReachableUnder (step s) guard (new s start counts) d) : d.chain.Consistent := by
  refine h.invariant (I := fun d => d.chain.Consistent) (fun _ => beq_self_eq_true _) ?_
  intro d a d' hconsistent _ hstep
  cases step_cases hstep with
  | service action world _ _ _ => exact hconsistent.send (world.sentBy action)
  | chain _ chain hmoves => exact hmoves.consistent hconsistent
  | reads => exact hconsistent

/-! ## Every live transaction is accounted for -/

/-- What the service and the chain know of each other. -/
structure NonceInv (d : Deployment) : Prop where
  single : (d.chain.live.map SentTx.address).Nodup
  derived : ∀ tx ∈ d.chain.live, .fulfilled ∈ d.world.derivations
  accounted : ∀ tx ∈ d.chain.live, ∃ path ∈ d.world.pool.paths,
    tx.address = d.world.pool.address path ∧
      (d.world.OnChain tx.job path ∨ d.world.pool.Quarantined path)

/-- Nothing has been sent yet. -/
theorem nonceInv_new (s : Setup) (now : Millis) (counts : Hex → Nat) :
    NonceInv (new s now counts) where
  single := List.nodup_nil
  derived _ h := nomatch h
  accounted _ h := nomatch h

namespace NonceInv

/-- A live transaction from the address of a path that is held is the holder's, and it is on the
    chain. -/
theorem holder (h : NonceInv d) (hbooks : World.Books s d.world)
    (hdistinct : s.DistinctAddresses) {job : Nat} {path : String}
    (hholds : d.world.Holds job path) {tx : SentTx} (htx : tx ∈ d.chain.live)
    (haddress : tx.address = d.world.pool.address path) :
    tx.job = job ∧ d.world.OnChain job path := by
  obtain ⟨hpath, hfulfilled⟩ := hbooks.mem_paths hholds
  obtain ⟨path', hpath', haddress', hwhere⟩ := h.accounted tx htx
  have hsame : path' = path :=
    hbooks.path_unique hdistinct hfulfilled hpath' hpath (haddress'.symm.trans haddress)
  subst hsame
  -- a quarantined worker is not held, so the transaction's own job holds the path
  rcases hwhere with hchain | hquarantined
  · have hjob := hbooks.exclusive hholds (hbooks.leases.holds_of_onChain hchain)
    exact ⟨hjob, hjob ▸ hchain⟩
  · exact absurd hquarantined (hbooks.not_quarantined hholds)

/-- Counts that lift a quarantine leave nothing live behind, as long as they are current. -/
theorem settled {action : Action} {who : Proc} {latest pending : Nat} {path : String}
    (hcounts : action.counts = some (who, latest, pending))
    (hwho : d.world.reconcilingPath who = some path) (hcurrent : Current d (.service action))
    (hequal : pending ≤ latest) (hquarantined : d.world.pool.Quarantined path) :
    ∀ tx ∈ d.chain.live, tx.address ≠ d.world.pool.address path := by
  intro tx htx haddress
  have hunsettled : d.unsettled who = true := by
    simp only [unsettled, hwho, Option.any_some, Bool.and_eq_true, List.any_eq_true, beq_iff_eq]
    refine ⟨?_, tx, htx, haddress⟩
    obtain ⟨v, hv, hpath, hsome⟩ := hquarantined
    obtain ⟨u, hu, rfl⟩ := List.mem_map.mp hv
    exact ⟨u, List.mem_filter.mpr ⟨hu, hsome⟩, hpath⟩
  have hnot : ¬ latest < pending := by omega
  simp [Current, current, hcounts, hunsettled, hnot] at hcurrent

/-- A transaction that was live before a step of the service is accounted for after it. -/
theorem accounted_service (h : NonceInv d) {world : World} (hbooks : World.Books s d.world)
    (hbooks' : World.Books s world) {action : Action} (hcurrent : Current d (.service action))
    (hanswers : d.answers action = true) (hworld : World.step s d.world action = some world)
    {tx : SentTx} (htx : tx ∈ d.chain.live) : ∃ path ∈ world.pool.paths,
      tx.address = world.pool.address path ∧
        (world.OnChain tx.job path ∨ world.pool.Quarantined path) := by
  obtain ⟨path, hpath, haddress, hwhere⟩ := h.accounted tx htx
  have hpaths : world.pool.paths = d.world.pool.paths :=
    hbooks'.addresses.paths.trans hbooks.addresses.paths.symm
  have hfulfilled := h.derived tx htx
  have hsame := hbooks.address_eq hbooks' hfulfilled (World.fulfilled_step hworld hfulfilled) path
  refine ⟨path, hpaths ▸ hpath, hsame ▸ haddress, ?_⟩
  rcases hwhere with hon | hquarantined
  · refine World.onChain_step hbooks.leases hbooks.addresses hpath hon hworld ?_
    -- a receipt is of a transaction that is not live any more
    rintro success rfl
    have hgone := List.all_eq_true.mp hanswers tx htx
    simp at hgone
  · rcases World.quarantined_step hbooks.leases hbooks.addresses hquarantined hworld with
      hstill | ⟨who, latest, pending, hcounts, hwho, hequal⟩
    · exact .inr hstill
    · exact absurd haddress (settled hcounts hwho hcurrent hequal hquarantined tx htx)

/-- The service goes on. -/
theorem service (h : NonceInv d) {world : World} {reads : Proc → CountReads}
    (hbooks : World.Books s d.world) (hbooks' : World.Books s world)
    (hdistinct : s.DistinctAddresses) {action : Action} (hcurrent : Current d (.service action))
    (hanswers : d.answers action = true) (hworld : World.step s d.world action = some world) :
    NonceInv { world, chain := d.chain.send (world.sentBy action), reads } := by
  have hkept : ∀ tx ∈ d.chain.live, .fulfilled ∈ world.derivations :=
    fun tx htx => World.fulfilled_step hworld (h.derived tx htx)
  have haccounted : ∀ {tx}, tx ∈ d.chain.live → _ :=
    h.accounted_service hbooks hbooks' hcurrent hanswers hworld
  rcases world.sentBy_cases action with hnone | ⟨job, reply, path, nonce, rfl, hsent, hone⟩
  · rw [hnone]
    have hsame : (d.chain.send []).live = d.chain.live := by
      simp [Chain.live, Chain.send]
    refine ⟨hsame ▸ h.single, ?_, ?_⟩
    · exact fun tx htx => hkept tx (hsame ▸ htx)
    · exact fun tx htx => haccounted (hsame ▸ htx)
  · rw [hone]
    obtain ⟨hholds, hoff⟩ := World.broadcasting_step hbooks.leases hworld hsent
    obtain ⟨hpath, hfulfilled⟩ := hbooks.mem_paths hholds
    have hfulfilled' := World.fulfilled_step hworld hfulfilled
    have hpaths : world.pool.paths = d.world.pool.paths :=
      hbooks'.addresses.paths.trans hbooks.addresses.paths.symm
    refine ⟨Chain.nodup_send h.single ?_, fun _ _ => hfulfilled', ?_⟩
    · intro tx htx haddress
      -- it would be the sender's own, which has sent nothing yet
      rw [hbooks.address_eq hbooks' hfulfilled hfulfilled' path] at haddress
      exact hoff path (h.holder hbooks hdistinct hholds htx haddress).2
    · intro tx htx
      rcases Chain.mem_live_send.mp htx with hold | hnew
      · exact haccounted hold
      · rw [List.mem_singleton.mp hnew]
        exact ⟨path, hpaths ▸ hpath, rfl, .inl (World.onChain_of_broadcasting hsent)⟩

end NonceInv

/-- Every step of a deployment keeps the live transactions accounted for, as long as the counts
    the service applies are current. -/
theorem nonceInv_step {a : DeploymentAction} (h : NonceInv d) (hbooks : World.Books s d.world)
    (hbooks' : World.Books s d'.world) (hdistinct : s.DistinctAddresses) (hcurrent : Current d a)
    (hstep : step s d a = some d') : NonceInv d' := by
  cases step_cases hstep with
  | service action world reads hanswers hworld =>
    exact h.service hbooks hbooks' hdistinct hcurrent hanswers hworld
  | chain _ chain hmoves =>
    refine ⟨hmoves.nodup h.single, ?_, ?_⟩
    · exact fun tx htx => h.derived tx (hmoves.mem htx)
    · exact fun tx htx => h.accounted tx (hmoves.mem htx)
  | reads => exact ⟨h.single, h.derived, h.accounted⟩

/-! ## Nonce safety -/

/-- Nothing is outstanding from the address of a leased worker but what its job sent, and no
    two outstanding transactions have the same address and nonce. -/
structure NonceSafe (d : Deployment) : Prop where
  leases : ∀ job path, d.world.Holds job path → ∀ tx ∈ d.chain.outstanding,
    tx.address = d.world.pool.address path → tx.job = job
  nonces : (d.chain.outstanding.map fun tx => (tx.address, tx.nonce)).Nodup

/-- In every run whose counts are current when they are applied, leases and nonces are safe. -/
theorem nonce_safety {start : Millis} {counts : Hex → Nat} (hdistinct : s.DistinctAddresses)
    (h : ReachableUnder (step s) Current (new s start counts) d) : d.NonceSafe := by
  have hinv : NonceInv d := by
    refine h.invariant' (nonceInv_new s start counts) ?_
    intro d a d' hreach hinv hcurrent hstep
    have hbooks := books_reachable hreach
    have hbooks' := books_reachable (hreach.tail a hcurrent hstep)
    exact nonceInv_step hinv hbooks hbooks' hdistinct hcurrent hstep
  have hbooks := books_reachable h
  constructor
  · intro job path hholds tx htx haddress
    exact (hinv.holder hbooks hdistinct hholds (List.mem_append_right _ htx) haddress).1
  · -- the addresses alone are distinct already
    have hsingle := hinv.single.sublist ((List.sublist_append_right _ _).map SentTx.address)
    apply List.Nodup.of_map Prod.fst
    rwa [List.map_map]

/-- Counts are current that the account still has when they are applied, as long as nothing from
    it is in flight. -/
theorem current_of_fresh {start : Millis} {counts : Hex → Nat} {action : Action} {who : Proc}
    {path : String} (h : Reachable (step s) (new s start counts) d)
    (hcounts : action.counts = some (who, d.chain.latest (d.world.pool.address path),
      d.chain.pending (d.world.pool.address path)))
    (hwho : d.world.reconcilingPath who = some path)
    (hsent : ∀ tx ∈ d.chain.inFlight, tx.address ≠ d.world.pool.address path) :
    Current d (.service action) := by
  simp only [Current, current, hcounts, Bool.or_eq_true, decide_eq_true_eq, Bool.not_eq_true']
  refine or_iff_not_imp_left.mpr fun hequal => ?_
  -- with both counts equal the chain has nothing of the address outstanding
  have hnone := (consistent_reachable h).none_outstanding (Nat.not_lt.mp hequal)
  have hlive : (d.chain.live.any fun tx => tx.address == d.world.pool.address path) = false := by
    rw [List.any_eq_false]
    intro tx htx haddress
    have haddress := beq_iff_eq.mp haddress
    exact (List.mem_append.mp htx).elim (fun hflight => hsent tx hflight haddress)
      fun houtstanding => hnone tx houtstanding haddress
  simp [unsettled, hwho, hlive]

/-! ## Two runs -/

def ofService (actions : List Action) : List DeploymentAction := actions.map .service

/-- The first job gets the one worker. -/
def leasedRun : List DeploymentAction :=
  ofService
    [.start .ethSelfTransfer, .resumeDerivation 0 .resume, .resumeDerivation 0 .resume,
      .resume 0 .resume, .resume 0 .resume, .resume 0 .resume]

/-- A job goes from `acquireWithin` to the broadcast. -/
def sends (job nonce : Nat) : List DeploymentAction :=
  ofService
    [.resume job .resume, .resume job (.balance 10000000000000000),
      .resume job (.nonceAndFees nonce ⟨1, 1⟩), .resume job (.gas 21000),
      .resume job .instruction, .resume job (.solanaTx "sig"), .resume job (.rsv ⟨"r", "s", 0⟩),
      .resume job .resume]

/-- `sendRawTransaction` throws, and the job gives up. -/
def givesUp (job : Nat) : DeploymentAction :=
  .service (.resume job (.throw { message := "timeout" }))

/-- The transaction of a job. -/
def sentTx (job nonce : Nat) : SentTx := { job, address := "0xload-0", nonce }

/-- The transaction of the first job is accepted after the job has given up on it, and mined. The
    second job lifts the quarantine and sends the next transaction. -/
def reconciledRun : List DeploymentAction :=
  leasedRun ++ sends 0 7 ++ [givesUp 0, .accept (sentTx 0 7) 7 8, .mine (sentTx 0 7) 8 8] ++
    ofService [.start .ethSelfTransfer, .resume 1 .resume] ++
    [.answerLatest (.job 1), .answerPending (.job 1)] ++
    ofService [.resume 1 (.counts 8 8), .resume 1 .resume, .resume 1 .resume] ++
    sends 1 8 ++ [.accept (sentTx 1 8) 8 9]

/-- The state that run ends in. -/
def reconciledDeployment : Deployment :=
  (exec (step World.sampleSetup) (new World.sampleSetup 0 fun _ => 7) reconciledRun).getD
    (new World.sampleSetup 0 fun _ => 7)

theorem exec_reconciledRun : exec (step World.sampleSetup)
    (new World.sampleSetup 0 fun _ => 7) reconciledRun = some reconciledDeployment :=
  exec_getD (by decide +kernel) _

/-- With one path there is one address. -/
theorem sampleSetup_distinctAddresses : World.sampleSetup.DistinctAddresses := by
  intro solana _ p hp q hq _
  have hone : buildPaths World.sampleSetup.env.bidirectional.pathPrefix
      World.sampleSetup.paths = ["load-0"] := by decide
  rw [hone, List.mem_singleton] at hp hq
  rw [hp, hq]

/-- The second transaction is the one outstanding, with the next nonce. -/
theorem reconciledRun_safe : reconciledDeployment.NonceSafe ∧
    reconciledDeployment.chain.outstanding = [sentTx 1 8] := by
  have hcurrent : Along (step World.sampleSetup) Current
      (new World.sampleSetup 0 fun _ => 7) reconciledRun := by
    decide +kernel
  refine ⟨nonce_safety sampleSetup_distinctAddresses (.of_exec exec_reconciledRun hcurrent), ?_⟩
  decide +kernel

/-- A request for `GET /workers`, up to the answers to its counts. -/
def readsCounts (request : Nat) : List DeploymentAction :=
  ofService [.getWorkers, .resumeRequest request .resume,
    .resumeRequest request (.balance 10000000000000000)] ++
    [.answerLatest (.request request), .answerPending (.request request)]

/-- A job that finds nothing to reconcile gets the worker. -/
def leases (job : Nat) : List DeploymentAction :=
  ofService [.start .ethSelfTransfer, .resume job .resume, .resume job .resume,
    .resume job .resume]

/-- Two requests read the counts. The second lifts the first quarantine, a job gives up on its
    transaction, and the first request lifts the second quarantine. -/
def overtakenRun : List DeploymentAction :=
  leasedRun ++ sends 0 7 ++ [.accept (sentTx 0 7) 7 8, givesUp 0, .mine (sentTx 0 7) 8 8] ++
    readsCounts 0 ++ readsCounts 1 ++ [.service (.resumeRequest 1 (.counts 8 8))] ++
    leases 1 ++ sends 1 8 ++ [.accept (sentTx 1 8) 8 9, givesUp 1] ++
    [.service (.resumeRequest 0 (.counts 8 8))] ++
    leases 2 ++ sends 2 8 ++ [.accept (sentTx 2 8) 8 9]

/-- The state that run ends in. -/
def overtakenDeployment : Deployment :=
  (exec (step World.sampleSetup) (new World.sampleSetup 0 fun _ => 7) overtakenRun).getD
    (new World.sampleSetup 0 fun _ => 7)

/-- One worker is leased over a transaction of another job, and one nonce is used twice. -/
theorem stale_counts_reuse_nonce : World.sampleSetup.DistinctAddresses ∧
    Reachable (step World.sampleSetup) (new World.sampleSetup 0 fun _ => 7)
      overtakenDeployment ∧
    overtakenDeployment.chain.outstanding = [sentTx 1 8, sentTx 2 8] ∧
    overtakenDeployment.world.Holds 2 "load-0" ∧ ¬ overtakenDeployment.NonceSafe := by
  have hexec : exec (step World.sampleSetup) (new World.sampleSetup 0 fun _ => 7)
      overtakenRun = some overtakenDeployment := exec_getD (by decide +kernel) _
  have houtstanding : overtakenDeployment.chain.outstanding = [sentTx 1 8, sentTx 2 8] := by
    decide +kernel
  refine ⟨sampleSetup_distinctAddresses, reachable_of_exec hexec, houtstanding, ?_, ?_⟩
  · refine ⟨_, (Option.some_get (by decide +kernel)).symm, by decide +kernel, .inl ?_⟩
    exact ⟨by decide +kernel, by decide +kernel⟩
  · -- one address and one nonce, twice in flight
    intro hsafe
    have hnodup := hsafe.nonces
    rw [houtstanding] at hnodup
    revert hnodup
    decide

end Deployment

end ContractPinger
