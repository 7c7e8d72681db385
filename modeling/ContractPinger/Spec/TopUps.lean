import ContractPinger.Spec.SweepSpending

/-!
# What an address is topped up to

The plan of a sweep has an entry for each worker that is short, not for each address, and
the per-address cap is compared with the target, not with what an address is sent. So an
address is sent what it is short of once for each time it stands among the workers: twice
when `--env` names a network twice, or two networks whose addresses coincide.

## Key results

- `planned_plan`: what the plan sends to an address
- `topped_up_iff`: every short address ends at the target, and the caps hold, exactly when
  no short address stands among the workers twice
-/

namespace ContractPinger

/-- What a plan is to send to an address. -/
def planned (transfers : List Transfer) (address : Hex) : Nat :=
  (transfers.map fun transfer => if transfer.to = address then transfer.value else 0).sum

/-- When every transfer succeeds, the loop sends what is planned. -/
theorem received_eq_planned {outcome : Nat → SendRound} {position : Nat}
    {transfers : List Transfer}
    (h : ∀ i, ∃ fee, outcome i = .receipt { success := true, fee }) (address : Hex) :
    received (sendRounds outcome position transfers) address = planned transfers address := by
  induction transfers generalizing position with
  | nil => rfl
  | cons transfer rest ih =>
    obtain ⟨fee, hfee⟩ := h position
    have hrest := @ih (position + 1)
    simp only [received, planned] at hrest ⊢
    simp only [sendRounds, hfee, List.map_cons, List.sum_cons, hrest]
    rfl

namespace Sweep

variable {run : Sweep} {workers : List SweepWorker}

/-- The addresses of the workers. -/
def workerAddresses (workers : List SweepWorker) : List Hex :=
  workers.map fun w => w.worker.address

/-- A plan sends an address what it is short of, once for each time it stands there. -/
theorem planned_plan {start : Hex → Nat}
    (hread : ∀ i w, workers[i]? = some w → run.reads.balances i = start w.worker.address)
    (address : Hex) :
    planned (run.plan workers) address =
      (workerAddresses workers).count address * (run.topUpTo - start address) := by
  -- generalised to any stretch of the workers, with the position it starts at
  suffices ∀ (rest : List SweepWorker) (k : Nat),
      (∀ i w, rest[i]? = some w → run.reads.balances (k + i) = start w.worker.address) →
      planned ((rest.zipIdx k).filterMap fun entry =>
          if run.reads.balances entry.2 < run.topUpTo then
            some { «to» := entry.1.worker.address
                   value := run.topUpTo - run.reads.balances entry.2 }
          else none) address =
        (workerAddresses rest).count address * (run.topUpTo - start address) by
    apply this workers 0
    intro i w hw
    rw [Nat.zero_add]
    exact hread i w hw
  intro rest
  induction rest with
  | nil => simp [planned, workerAddresses]
  | cons w rest ih =>
    intro k hrest
    have hhead : run.reads.balances k = start w.worker.address := hrest 0 w rfl
    have htail := ih (k + 1) fun i w' hw' => by
      have hnext := hrest (i + 1) w' hw'
      rw [← hnext]
      congr 1
      omega
    rw [workerAddresses] at htail ⊢
    rw [List.map_cons, List.count_cons, Nat.add_mul, ← htail, List.zipIdx_cons,
      List.filterMap_cons]
    dsimp only
    rw [hhead]
    -- a worker at this address adds what it is short of, any other nothing
    by_cases haddress : w.worker.address = address
    · subst haddress
      by_cases hshort : start w.worker.address < run.topUpTo
      · simp [hshort, planned, Nat.add_comm]
      · have hfull : run.topUpTo - start w.worker.address = 0 := by omega
        simp [hshort, hfull]
    · by_cases hshort : start w.worker.address < run.topUpTo <;>
        simp [hshort, haddress, planned]

/-- What the loop is to make of a plan: all of it, unless it is a dry run. -/
theorem main_transfers_eq {toLowerCase : String → String} {transfers : List Transfer}
    (hprepare : run.prepare toLowerCase = .ok workers)
    (hmain : run.main toLowerCase = .ok transfers) :
    transfers = if run.args.dryRun then [] else run.plan workers := by
  obtain ⟨account, prepared, hsame, _, htransfers⟩ := main_ok hmain
  rw [hprepare, Except.ok.injEq] at hsame
  rw [htransfers, hsame]

/-- What a run sends to an address, when all its transfers succeed. -/
theorem received_main {toLowerCase : String → String} {transfers : List Transfer}
    {start : Hex → Nat} {outcome : Nat → SendRound}
    (hprepare : run.prepare toLowerCase = .ok workers)
    (hmain : run.main toLowerCase = .ok transfers)
    (hread : ∀ i w, workers[i]? = some w → run.reads.balances i = start w.worker.address)
    (hsuccess : ∀ i, ∃ fee, outcome i = .receipt { success := true, fee }) (address : Hex) :
    received (sendRounds outcome 0 transfers) address = if run.args.dryRun then 0 else
      (workerAddresses workers).count address * (run.topUpTo - start address) := by
  rw [received_eq_planned hsuccess address, main_transfers_eq hprepare hmain]
  split
  · rfl
  · exact planned_plan hread address

/-- With every transfer of a run successful and no other one, nobody is sent more than the
    per-address cap, every short address ends at the target, and no other is sent anything,
    exactly when no short address stands among the workers twice and, if one is short, the
    run is no dry run. -/
theorem topped_up_iff {toLowerCase : String → String} {transfers : List Transfer}
    {start : Hex → Nat} {outcome : Nat → SendRound}
    (hprepare : run.prepare toLowerCase = .ok workers)
    (hmain : run.main toLowerCase = .ok transfers)
    (hread : ∀ i w, workers[i]? = some w → run.reads.balances i = start w.worker.address)
    (hsuccess : ∀ i, ∃ fee, outcome i = .receipt { success := true, fee }) :
    let sent := received (sendRounds outcome 0 transfers)
    ((∀ address, sent address ≤ run.env.funding.maxPerAddress) ∧
      (∀ w ∈ workers, start w.worker.address < run.topUpTo →
        start w.worker.address + sent w.worker.address = run.topUpTo) ∧
      ∀ address, run.topUpTo ≤ start address → sent address = 0) ↔
    ∀ w ∈ workers, start w.worker.address < run.topUpTo →
      run.args.dryRun = false ∧ (workerAddresses workers).count w.worker.address = 1 := by
  intro sent
  have hsent : ∀ address, sent address = if run.args.dryRun then 0 else
      (workerAddresses workers).count address * (run.topUpTo - start address) :=
    received_main hprepare hmain hread hsuccess
  constructor
  · intro h w hw hshort
    have htarget := h.2.1 w hw hshort
    rw [hsent] at htarget
    cases hdry : run.args.dryRun with
    | true =>
      rw [hdry] at htarget
      simp only [if_true] at htarget
      omega
    | false =>
      rw [hdry] at htarget
      simp only [Bool.false_eq_true, if_false] at htarget
      -- what is short is sent that many times over
      have hgap : (workerAddresses workers).count w.worker.address *
          (run.topUpTo - start w.worker.address) = run.topUpTo - start w.worker.address := by
        omega
      have hne : run.topUpTo - start w.worker.address ≠ 0 := by omega
      exact ⟨rfl, (Nat.mul_eq_right hne).mp hgap⟩
  · intro h
    have hcap := (checkTopUp_ok (prepare_checkTopUp hprepare)).2
    refine ⟨?_, ?_, ?_⟩
    · intro address
      rw [hsent]
      split
      · exact Nat.zero_le _
      · -- an address that is short is sent its gap once, and the target is within the cap
        by_cases hmem : address ∈ workerAddresses workers
        · obtain ⟨w, hw, rfl⟩ := List.mem_map.mp hmem
          by_cases hshort : start w.worker.address < run.topUpTo
          · rw [(h w hw hshort).2]
            omega
          · have hgap : run.topUpTo - start w.worker.address = 0 := by omega
            simp [hgap]
        · simp [List.count_eq_zero_of_not_mem hmem]
    · intro w hw hshort
      obtain ⟨hwet, hcount⟩ := h w hw hshort
      rw [hsent, hwet, hcount]
      simp only [Bool.false_eq_true, if_false]
      omega
    · intro address hfull
      have hgap : run.topUpTo - start address = 0 := by omega
      rw [hsent, hgap]
      simp

end Sweep

/-! ## A network named twice -/

/-- A sweep of one short address with a target of 0.015 ETH, under a cap of 0.02 ETH for an
    address, next to a service that reports the address the sweep derives. -/
def repeatedSweep (envs : List String) : Sweep :=
  { sampleSweep (.workers [{ path := "load-0", address := some "0xload-0" }]) with
    args := { envs, topUp := some 15000000000000000 } }

/-- Named once, the network is topped up as it should be. -/
theorem network_named_once :
    (repeatedSweep ["dev"]).main String.toLower =
        .ok [{ «to» := "0xload-0", value := 15000000000000000 }] ∧
      ∀ address, received (sendRounds (fun _ => .receipt { success := true, fee := 0 }) 0
        [{ «to» := "0xload-0", value := 15000000000000000 }]) address ≤ 20000000000000000 := by
  have hprepare : (repeatedSweep ["dev"]).prepare String.toLower = .ok sampleWorkers := by
    decide +kernel
  have hmain : (repeatedSweep ["dev"]).main String.toLower =
      .ok [{ «to» := "0xload-0", value := 15000000000000000 }] := by decide +kernel
  have hiff := @Sweep.topped_up_iff _ _ _ _ (fun _ => 0)
    (fun _ => .receipt { success := true, fee := 0 }) hprepare hmain
    (fun _ _ _ => rfl) fun _ => ⟨0, rfl⟩
  refine ⟨hmain, (hiff.mpr ?_).1⟩
  intro w hw _
  exact ⟨rfl, by rw [List.mem_singleton.mp hw]; decide +kernel⟩

/-- Named twice, it is accepted, agrees with the service, and has its address sent twice
    what it is short of: more than the cap, and past the target. -/
theorem network_named_twice :
    let run := repeatedSweep ["dev", "dev"]
    let transfers : List Transfer := [{ «to» := "0xload-0", value := 15000000000000000 },
      { «to» := "0xload-0", value := 15000000000000000 }]
    let sent := received (sendRounds (fun _ => .receipt { success := true, fee := 0 }) 0 transfers)
    run.main String.toLower = .ok transfers ∧
      run.env.funding.maxPerAddress < sent "0xload-0" ∧ run.topUpTo < 0 + sent "0xload-0" := by
  decide +kernel

end ContractPinger
