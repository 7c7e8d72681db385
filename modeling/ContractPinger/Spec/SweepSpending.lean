import ContractPinger.Model.SendLoop
import ContractPinger.Spec.CrossCheck

/-!
# What a sweep spends

Before its send loop a sweep has made sure of the wallet: it holds what the transfers are
worth, what their gas may cost, and the reserve. Each round of the loop spends at most its
own share of that, whatever becomes of the transfer, so the shares of the rounds to come
and the reserve stay untouched.

## Key results

- `sendRounds_fst`: the rounds made are the first ones planned
- `spent_le`: what rounds cost is at most what was set aside for them
- `spending_bounded`: the caps hold, and after every round the reserve and the rest of the
  budget are still there
-/

namespace ContractPinger

/-! ## Rounds of the loop -/

section Rounds

variable {outcome : Nat → SendRound} {position : Nat} {transfers : List Transfer}

/-- The rounds made are the first ones of the plan. -/
theorem sendRounds_fst :
    (sendRounds outcome position transfers).map Prod.fst =
      transfers.take (sendRounds outcome position transfers).length := by
  induction transfers generalizing position with
  | nil => rfl
  | cons transfer rest ih =>
    unfold sendRounds
    split
    · rfl
    · simp [ih]

/-- What is set aside for a transfer: its value and its gas. -/
def Transfer.share (maxFeePerGas : Nat) (transfer : Transfer) : Nat :=
  transfer.value + plainTransferGas * maxFeePerGas

/-- A round costs at most what was set aside for it, whatever becomes of the transfer. -/
theorem SendRound.cost_le {round : SendRound} {transfer : Transfer} {maxFeePerGas : Nat}
    (h : ∀ m ∈ round.mined, m.fee ≤ plainTransferGas * maxFeePerGas) :
    round.cost transfer.value ≤ transfer.share maxFeePerGas := by
  unfold SendRound.cost SendRound.moved Transfer.share
  cases hmined : round.mined with
  | none => simp
  | some m =>
    have hfee := h m hmined
    simp only [Option.map_some, Option.getD_some]
    -- reverted or not, the value and the fee are within the share
    split <;> omega

/-- What rounds cost is at most what was set aside for their transfers. -/
theorem spent_le {rounds : List (Transfer × SendRound)} {maxFeePerGas : Nat}
    (h : ∀ r ∈ rounds, ∀ m ∈ r.2.mined, m.fee ≤ plainTransferGas * maxFeePerGas) :
    spent rounds ≤ ((rounds.map Prod.fst).map (Transfer.share maxFeePerGas)).sum := by
  rw [spent, List.map_map]
  apply List.sum_le_sum
  intro r hr
  exact SendRound.cost_le (h r hr)

/-- Shares sum up to the values and a gas budget for each. -/
theorem sum_share (maxFeePerGas : Nat) (transfers : List Transfer) :
    (transfers.map (Transfer.share maxFeePerGas)).sum =
      (transfers.map Transfer.value).sum + transfers.length * plainTransferGas * maxFeePerGas := by
  induction transfers with
  | nil => simp
  | cons transfer rest ih =>
    simp only [List.map_cons, List.sum_cons, List.length_cons, ih, Transfer.share]
    ring

end Rounds

namespace Sweep

variable {run : Sweep} {account : Hex} {workers : List SweepWorker}

/-- A run at its send loop: its limits have been checked, somebody is short, and it is no
    dry run. -/
structure AtSendLoop (run : Sweep) (account : Hex) (workers : List SweepWorker) : Prop where
  topUp : run.checkTopUp = .ok ()
  short : run.plan workers ≠ []
  limits : run.checkPlan account (run.plan workers) = .ok ()
  wet : run.args.dryRun = false

/-- A run that gets as far as the plan has had its target checked. -/
theorem prepare_checkTopUp {toLowerCase : String → String}
    (h : run.prepare toLowerCase = .ok workers) : run.checkTopUp = .ok () := by
  simp only [prepare, Except.bind_eq_ok_iff] at h
  obtain ⟨_, _, _, _, _, _, _, _, _, _, _, _, _, hcheck, _⟩ := h
  exact hcheck

/-- A sweep that is to make transfers is at its send loop, and makes those of the plan. -/
theorem main_atSendLoop {toLowerCase : String → String} {transfers : List Transfer}
    (h : run.main toLowerCase = .ok transfers) (hsome : transfers ≠ []) :
    ∃ account workers, run.prepare toLowerCase = .ok workers ∧
      run.AtSendLoop account workers ∧ transfers = run.plan workers := by
  obtain ⟨account, workers, hprepare, hlimits, rfl⟩ := main_ok h
  cases hdry : run.args.dryRun with
  | true =>
    rw [hdry] at hsome
    exact absurd rfl hsome
  | false =>
    simp only [hdry, Bool.false_eq_true, if_false] at hsome ⊢
    exact ⟨account, workers, hprepare,
      ⟨prepare_checkTopUp hprepare, hsome, hlimits hsome, hdry⟩, rfl⟩

/-! ## The plan and its limits -/

/-- A target that passes is above the minimum, and within the cap for an address. -/
theorem checkTopUp_ok (h : run.checkTopUp = .ok ()) :
    run.env.bidirectional.minBalanceWei < run.topUpTo ∧
      run.topUpTo ≤ run.env.funding.maxPerAddress := by
  simp only [checkTopUp] at h
  split at h
  · cases h
  · split at h
    · cases h
    · omega

/-- What the limits leave room for. -/
theorem checkPlan_ok {transfers : List Transfer} (h : run.checkPlan account transfers = .ok ()) :
    (transfers.map Transfer.value).sum ≤ run.env.funding.maxPerRun ∧
      run.env.funding.reserve +
          (transfers.map (Transfer.share run.reads.maxFeePerGas)).sum ≤
        run.reads.sourceBalance := by
  simp only [checkPlan] at h
  rw [sum_share]
  split at h
  · cases h
  · split at h
    · cases h
    · omega

/-! ## The wallet through the loop -/

/-- What the wallet holds after the first `k` rounds, if nothing else spends from it. -/
def walletAfter (run : Sweep) (rounds : List (Transfer × SendRound)) (k : Nat) : Int :=
  run.reads.sourceBalance - spent (rounds.take k)

/-- After `k` rounds the reserve and the shares of the transfers not yet made are there. -/
theorem walletAfter_ge {outcome : Nat → SendRound} {transfers : List Transfer}
    (hlimits : run.checkPlan account transfers = .ok ())
    (hfees : ∀ r ∈ sendRounds outcome 0 transfers, ∀ m ∈ r.2.mined,
      m.fee ≤ plainTransferGas * run.reads.maxFeePerGas) {k : Nat}
    (hk : k ≤ (sendRounds outcome 0 transfers).length) :
    run.env.funding.reserve +
        ((transfers.drop k).map (Transfer.share run.reads.maxFeePerGas)).sum ≤
      run.walletAfter (sendRounds outcome 0 transfers) k := by
  obtain ⟨_, hfunds⟩ := checkPlan_ok hlimits
  have htaken : ∀ r ∈ (sendRounds outcome 0 transfers).take k, ∀ m ∈ r.2.mined,
      m.fee ≤ plainTransferGas * run.reads.maxFeePerGas :=
    fun r hr => hfees r (List.mem_of_mem_take hr)
  have hspent := spent_le htaken
  -- the transfers made and those not yet made share the budget
  have hmade : ((sendRounds outcome 0 transfers).take k).map Prod.fst = transfers.take k := by
    rw [List.map_take, sendRounds_fst, List.take_take]
    congr 1
    omega
  have hsplit : ((transfers.take k).map (Transfer.share run.reads.maxFeePerGas)).sum +
      ((transfers.drop k).map (Transfer.share run.reads.maxFeePerGas)).sum =
        (transfers.map (Transfer.share run.reads.maxFeePerGas)).sum := by
    rw [← List.sum_append, ← List.map_append, List.take_append_drop]
  rw [hmade] at hspent
  unfold walletAfter
  omega

/-- At the send loop every transfer is positive and within the per-address cap, and all of
    them within the per-run cap. If nothing else spends from the wallet and no fee exceeds
    the estimate, then after any number of rounds the reserve and the shares of the
    transfers not yet made are still there: each of these can be paid for, and the check of
    the reserve at the end passes. -/
theorem spending_bounded (h : run.AtSendLoop account workers) (outcome : Nat → SendRound)
    (hfees : ∀ r ∈ sendRounds outcome 0 (run.plan workers), ∀ m ∈ r.2.mined,
      m.fee ≤ plainTransferGas * run.reads.maxFeePerGas) :
    let transfers := run.plan workers
    let rounds := sendRounds outcome 0 transfers
    (∀ transfer ∈ transfers,
      0 < transfer.value ∧ transfer.value ≤ run.env.funding.maxPerAddress) ∧
    (transfers.map Transfer.value).sum ≤ run.env.funding.maxPerRun ∧
    (∀ k ≤ rounds.length,
      run.env.funding.reserve + ((transfers.drop k).map fun transfer =>
          transfer.value + plainTransferGas * run.reads.maxFeePerGas).sum ≤
        run.walletAfter rounds k ∧
      ∀ transfer, transfers[k]? = some transfer →
        transfer.value + plainTransferGas * run.reads.maxFeePerGas ≤
          run.walletAfter rounds k) ∧
    run.checkReserve (run.walletAfter rounds rounds.length) = .ok () := by
  intro transfers rounds
  have hkept : ∀ k ≤ rounds.length, run.env.funding.reserve +
      ((transfers.drop k).map (Transfer.share run.reads.maxFeePerGas)).sum ≤
        run.walletAfter rounds k := fun k hk => walletAfter_ge h.limits hfees hk
  refine ⟨?_, (checkPlan_ok h.limits).1, ?_, ?_⟩
  · intro transfer hmem
    obtain ⟨w, i, _, hbelow, rfl⟩ := mem_plan hmem
    obtain ⟨_, hcap⟩ := checkTopUp_ok h.topUp
    dsimp only
    omega
  · intro k hk
    refine ⟨hkept k hk, fun transfer htransfer => ?_⟩
    -- the next transfer is the first of those not yet made
    have hdrop : transfers.drop k = transfer :: transfers.drop (k + 1) := by
      obtain ⟨hlt, hget⟩ := List.getElem?_eq_some_iff.mp htransfer
      rw [List.drop_eq_getElem_cons hlt, hget]
    have hge := hkept k hk
    rw [hdrop, List.map_cons, List.sum_cons, Transfer.share] at hge
    omega
  · -- the check of the reserve is the bound after the last round
    have hge := hkept rounds.length (Nat.le_refl _)
    rw [checkReserve, if_neg]
    omega

end Sweep

/-! ## A transfer that reverts -/

/-- What the sweep of one address derives. -/
def sampleWorkers : List SweepWorker := sampleDerived.map fun worker => { worker, env := .dev }

/-- The transfer reverts and burns its whole gas budget; the reserve is there. -/
theorem reverted_transfer_keeps_reserve :
    let run := sampleSweep .unreachable
    let rounds := sendRounds (fun _ => .receipt { success := false, fee := 21000 }) 0
      (run.plan sampleWorkers)
    run.walletAfter rounds 1 = 999999999999979000 ∧
      run.checkReserve (run.walletAfter rounds rounds.length) = .ok () := by
  intro run rounds
  have hloop : run.AtSendLoop "0xfunder" sampleWorkers :=
    ⟨by decide +kernel, by decide +kernel, by decide +kernel, rfl⟩
  have hfees : ∀ r ∈ rounds, ∀ m ∈ r.2.mined,
      m.fee ≤ plainTransferGas * run.reads.maxFeePerGas := by decide +kernel
  exact ⟨by decide +kernel, (Sweep.spending_bounded hloop _ hfees).2.2.2⟩

end ContractPinger
