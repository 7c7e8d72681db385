import ContractPinger.ForStd.Machine
import ContractPinger.Model.RepeatedSweeps
import ContractPinger.Spec.TopUps

/-!
# When repeating the sweep overfunds

A run plans from the balances it reads, and these do not show what an earlier run has submitted
and the chain has not mined. This file proves that an address ends up over the target exactly
when a run submits a transfer to it although it holds, with what is on the way to it, more than
that run has read.

## Key results

- `neverOver_iff`: whatever is mined, an address stays within the target exactly when it does
  with everything that is on the way to it
- `overfunds_iff`: a sequence of runs keeps it so exactly when no transfer is submitted on a
  balance that leaves something out
-/

namespace ContractPinger

open Machine

/-- What a plan without one of its transfers sends to an address. -/
theorem planned_eraseIdx {transfers : List Transfer} {position : Nat} {transfer : Transfer}
    (h : transfers[position]? = some transfer) (address : Hex) :
    planned (transfers.eraseIdx position) address +
      (if transfer.to = address then transfer.value else 0) = planned transfers address := by
  obtain ⟨hlt, hget⟩ := List.getElem?_eq_some_iff.mp h
  have hsum := List.add_sum_eraseIdx
    (l := transfers.map fun transfer => if transfer.to = address then transfer.value else 0)
    (i := position) (by rwa [List.length_map]) fun _ _ => AddCommute.all _ _
  rw [planned, planned, ← List.eraseIdx_map, ← hsum, List.getElem_map, hget]
  exact Nat.add_comm _ _

/-- A transfer adds to what is planned for its recipient. -/
theorem planned_concat (transfers : List Transfer) (transfer : Transfer) (address : Hex) :
    planned (transfers ++ [transfer]) address =
      planned transfers address + if transfer.to = address then transfer.value else 0 := by
  simp [planned]

/-- The transfers are the gaps between what has been read and the target. -/
def Gaps (target : Nat) (read : List (Hex × Nat)) (rest : List Transfer) : Prop :=
  ∀ transfer ∈ rest, ∃ held, read.lookup transfer.to = some held ∧ held < target ∧
    transfer.value = target - held

/-- What the run in progress goes by. -/
def SweepPc.Planned (toLowerCase : String → String) (target : Nat) : SweepPc → Prop
  | .idle => True
  | .reading run workers _ => run.topUpTo = target ∧ run.prepare toLowerCase = .ok workers ∧
      (Sweep.workerAddresses workers).Nodup
  | .sending read rest => Gaps target read rest
  | .waiting _ read rest => Gaps target read rest

namespace Sweep

/-- The balances have no part in the addresses. -/
theorem deriveAll_withBalances (run : Sweep) (balances : Nat → Nat) (requester : String)
    (envs : List Environment) :
    (run.withBalances balances).deriveAll requester envs = run.deriveAll requester envs := by
  induction envs with
  | nil => rfl
  | cons network rest ih =>
    rw [deriveAll, deriveAll, ih]
    rfl

/-- The cross-check reads no balance. -/
theorem crossChecks_withBalances (run : Sweep) (balances : Nat → Nat)
    (toLowerCase : String → String) (workers : List SweepWorker) (position : Nat)
    (envs : List Environment) :
    (run.withBalances balances).crossChecks toLowerCase workers position envs =
      run.crossChecks toLowerCase workers position envs := by
  induction envs generalizing position with
  | nil => rfl
  | cons network rest ih =>
    rw [crossChecks, crossChecks, ih]
    rfl

/-- Nor does anything before the plan. -/
theorem prepare_withBalances (run : Sweep) (balances : Nat → Nat)
    (toLowerCase : String → String) :
    (run.withBalances balances).prepare toLowerCase = run.prepare toLowerCase := by
  simp only [prepare, checkService, deriveAll_withBalances, crossChecks_withBalances]
  rfl

end Sweep

namespace Sweeps

variable {toLowerCase : String → String} {w w' : Sweeps} {target : Nat} {address : Hex}

/-! ## What is on the way -/

/-- What is on the way to an address. -/
def outstandingTo (w : Sweeps) (address : Hex) : Nat :=
  planned (w.outstanding.map Prod.snd) address

/-- Whatever is mined from here on, and whether it succeeds or not, the address holds no more
    than the target; with nothing mined, that is what it holds now. -/
def NeverOver (toLowerCase : String → String) (target : Nat) (address : Hex) (w : Sweeps) : Prop :=
  ∀ (mined : List (Nat × Bool)) (w' : Sweeps),
    exec (step toLowerCase) w (mined.map fun m => .mine m.1 m.2) = some w' →
    w'.balances address ≤ target

/-- A transfer that is mined. -/
theorem step_mine {position : Nat} {success : Bool}
    (h : step toLowerCase w (.mine position success) = some w') :
    ∃ tx transfer, w.outstanding[position]? = some (tx, transfer) ∧
      w' = { w with
        outstanding := w.outstanding.eraseIdx position
        balances := if success then
            Function.update w.balances transfer.to (w.balances transfer.to + transfer.value)
          else w.balances } := by
  obtain ⟨⟨tx, transfer⟩, hentry, rfl⟩ := Option.map_eq_some_iff.mp h
  exact ⟨tx, transfer, hentry, rfl⟩

/-- A transfer that is mined moves what is on the way into the balance, or nowhere. -/
theorem mine_moves {position : Nat} {success : Bool}
    (h : step toLowerCase w (.mine position success) = some w') (address : Hex) :
    w'.balances address + w'.outstandingTo address ≤
        w.balances address + w.outstandingTo address ∧
      (success = true → w'.balances address + w'.outstandingTo address =
        w.balances address + w.outstandingTo address) := by
  obtain ⟨tx, transfer, hentry, rfl⟩ := step_mine h
  have hmined : (w.outstanding.map Prod.snd)[position]? = some transfer := by
    rw [List.getElem?_map, hentry]
    rfl
  have hsum := planned_eraseIdx hmined address
  simp only [outstandingTo, ← List.eraseIdx_map] at hsum ⊢
  cases success with
  -- reverted: it is outstanding no longer, and the address has got nothing
  | false => exact ⟨by simp only [Bool.false_eq_true, if_false]; omega, nofun⟩
  | true =>
    simp only [if_true, Function.update_apply]
    -- what is no longer outstanding to the address is on its balance
    by_cases hto : transfer.to = address
    · simp only [hto, if_true] at hsum ⊢
      omega
    · rw [if_neg hto] at hsum
      rw [if_neg (Ne.symm hto)]
      omega

/-- The worst that can happen is that everything is mined. -/
theorem neverOver_iff :
    w.NeverOver toLowerCase target address ↔
      w.balances address + w.outstandingTo address ≤ target := by
  constructor
  · intro h
    -- mine the first of the outstanding transfers, until there is none
    generalize hcount : w.outstanding.length = count
    induction count generalizing w with
    | zero =>
      have hnone : w.outstandingTo address = 0 := by
        rw [outstandingTo, List.length_eq_zero_iff.mp hcount]
        rfl
      rw [hnone]
      exact h [] w rfl
    | succ count ih =>
      obtain ⟨entry, rest, hrest⟩ := List.exists_cons_of_length_eq_add_one hcount
      obtain ⟨w', hstep⟩ : ∃ w', step toLowerCase w (.mine 0 true) = some w' := by
        rw [step, hrest]
        exact ⟨_, rfl⟩
      rw [← (mine_moves hstep address).2 rfl]
      refine ih ?_ ?_
      · intro mined w'' hexec
        refine h ((0, true) :: mined) w'' ?_
        rw [List.map_cons, exec, hstep]
        exact hexec
      · obtain ⟨_, _, _, rfl⟩ := step_mine hstep
        rw [List.length_eraseIdx, hcount]
        rfl
  · intro h mined w' hexec
    have hbound : w'.balances address + w'.outstandingTo address ≤ target := by
      induction mined generalizing w with
      | nil =>
        cases hexec
        exact h
      | cons m rest ih =>
        rw [List.map_cons, exec, Option.bind_eq_some_iff] at hexec
        obtain ⟨w₁, hstep, hrest⟩ := hexec
        exact ih ((mine_moves hstep address).1.trans h) hrest
    omega

/-! ## What a run goes by -/

/-- The runs have one target and distinct addresses, and nobody else adds to the address. -/
def Repeats (toLowerCase : String → String) (target : Nat) (address : Hex) : SweepAction → Prop
  | .start run => run.topUpTo = target ∧
      ∀ workers, run.prepare toLowerCase = .ok workers → (Sweep.workerAddresses workers).Nodup
  | .credit other _ => other ≠ address
  | _ => True

/-- What the run has read of the address covers what it holds and what is on the way to it, when
    a transfer to it is submitted. -/
def covers (w : Sweeps) (address : Hex) : SweepAction → Bool
  | .submit =>
    match w.pc with
    | .sending read (transfer :: _) => transfer.to != address ||
        (read.lookup address).all fun held => w.balances address + w.outstandingTo address ≤ held
    | _ => true
  | _ => true

/-- What is decided fills the gaps. -/
theorem decided_planned {run : Sweep} {workers : List SweepWorker} {answers : List (Option Nat)}
    (h : (SweepPc.reading run workers answers).Planned toLowerCase target) :
    (decided toLowerCase run workers answers).Planned toLowerCase target := by
  obtain ⟨htarget, hprepare, hnd⟩ := h
  unfold decided
  split
  · trivial
  · rename_i transfers hmain
    obtain ⟨_, prepared, hsame, _, rfl⟩ := Sweep.main_ok hmain
    rw [Sweep.prepare_withBalances, hprepare, Except.ok.injEq] at hsame
    subst hsame
    intro transfer hmem
    split at hmem
    · cases hmem
    · obtain ⟨worker, i, hworker, hshort, rfl⟩ := Sweep.mem_plan hmem
      refine ⟨answered answers i, ?_, htarget ▸ hshort, htarget ▸ rfl⟩
      -- the addresses are distinct, so this is what has been read of this one
      rw [List.lookup_eq_some_iff_mem]
      · exact List.mem_map.mpr ⟨(worker, i), List.mk_mem_zipIdx_iff_getElem?.mpr hworker, rfl⟩
      · rw [List.map_map]
        show (workers.zipIdx.map ((fun w => w.worker.address) ∘ Prod.fst)).Nodup
        rw [← List.map_map, List.zipIdx_map_fst]
        exact hnd

/-! ## Steps -/

/-- What a step of the runs does. -/
inductive SweepStep (toLowerCase : String → String) (w w' : Sweeps) : SweepAction → Prop
  | turns {a : SweepAction} (quiet : a ≠ .submit) (balances : w'.balances = w.balances)
      (outstanding : w'.outstanding = w.outstanding)
      (planned : ∀ target address, Repeats toLowerCase target address a →
        w.pc.Planned toLowerCase target → w'.pc.Planned toLowerCase target) :
      SweepStep toLowerCase w w' a
  | submits (read : List (Hex × Nat)) (transfer : Transfer) (rest : List Transfer)
      (pc : w.pc = .sending read (transfer :: rest))
      (eq : w' = { w with
        outstanding := w.outstanding ++ [(w.submitted, transfer)]
        submitted := w.submitted + 1
        pc := .waiting w.submitted read rest }) : SweepStep toLowerCase w w' .submit
  | mines (position : Nat) (success : Bool) (pc : w'.pc = w.pc) :
      SweepStep toLowerCase w w' (.mine position success)
  | spends (address : Hex) (wei : Nat)
      (eq : w' = { w with
        balances := Function.update w.balances address (w.balances address - wei) }) :
      SweepStep toLowerCase w w' (.spend address wei)
  | credits (address : Hex) (wei : Nat)
      (eq : w' = { w with
        balances := Function.update w.balances address (w.balances address + wei) }) :
      SweepStep toLowerCase w w' (.credit address wei)

/-- Every step is one of these. -/
theorem step_sweep {a : SweepAction} (h : step toLowerCase w a = some w') :
    SweepStep toLowerCase w w' a := by
  cases a with
  | start run =>
    simp only [step] at h
    split at h
    · split at h <;> cases h
      · exact .turns (by simp) rfl rfl fun _ _ _ hplanned => hplanned
      · rename_i workers hprepare
        -- the run has prepared the workers that it plans for
        exact .turns (by simp) rfl rfl fun _ _ hrun _ =>
          ⟨hrun.1, hprepare, hrun.2 workers hprepare⟩
    · cases h
  | read position =>
    simp only [step] at h
    split at h
    · rename_i run workers answers hpc
      split at h <;> cases h
      exact .turns (by simp) rfl rfl fun _ _ _ hplanned => by rwa [hpc] at hplanned
    · cases h
  | decide =>
    simp only [step] at h
    split at h
    · rename_i run workers answers hpc
      split at h <;> cases h
      -- the plan is made from the balances that were read
      refine .turns (by simp) rfl rfl fun _ _ _ hplanned => ?_
      rw [hpc] at hplanned
      exact decided_planned hplanned
    · cases h
  | submit =>
    simp only [step] at h
    split at h <;> cases h
    rename_i read transfer rest hpc
    exact .submits read transfer rest hpc rfl
  | receipt =>
    simp only [step] at h
    split at h
    · rename_i tx read rest hpc
      split at h <;> cases h
      exact .turns (by simp) rfl rfl fun _ _ _ hplanned => by rwa [hpc] at hplanned
    · cases h
  | stop =>
    cases h
    exact .turns (by simp) rfl rfl fun _ _ _ _ => trivial
  | mine position success =>
    obtain ⟨_, _, _, rfl⟩ := step_mine h
    exact .mines position success rfl
  | spend address wei =>
    simp only [step, Option.ite_none_right_eq_some, Option.some.injEq] at h
    obtain ⟨_, rfl⟩ := h
    exact .spends address wei rfl
  | credit address wei =>
    cases h
    exact .credits address wei rfl

/-- A step of the runs keeps to the plan. -/
theorem planned_step {a : SweepAction} (hkind : Repeats toLowerCase target address a)
    (h : w.pc.Planned toLowerCase target) (hstep : step toLowerCase w a = some w') :
    w'.pc.Planned toLowerCase target := by
  cases step_sweep hstep with
  | turns _ _ _ hplanned => exact hplanned target address hkind h
  | submits read transfer rest hpc heq =>
    rw [hpc] at h
    rw [heq]
    exact fun t ht => h t (List.mem_cons_of_mem _ ht)
  | mines _ _ hpc => rwa [hpc]
  | spends _ _ heq => rwa [heq]
  | credits _ _ heq => rwa [heq]

/-- A step keeps the address within the target, with all that is on the way to it, exactly when
    it submits no transfer to it on a balance that leaves something out. -/
theorem within_step_iff {a : SweepAction} (hkind : Repeats toLowerCase target address a)
    (hplanned : w.pc.Planned toLowerCase target)
    (h : w.balances address + w.outstandingTo address ≤ target)
    (hstep : step toLowerCase w a = some w') :
    w'.balances address + w'.outstandingTo address ≤ target ↔ w.covers address a = true := by
  cases step_sweep hstep with
  | turns hquiet hbalances houtstanding _ =>
    have hcurrent : w.covers address a = true := by
      cases a with
      | submit => exact absurd rfl hquiet
      | _ => rfl
    rw [hbalances, outstandingTo, houtstanding]
    exact iff_of_true h hcurrent
  | submits read transfer rest hpc heq =>
    rw [hpc] at hplanned
    obtain ⟨held, hread, hbelow, hvalue⟩ := hplanned transfer List.mem_cons_self
    have hafter : w'.outstandingTo address =
        w.outstandingTo address + if transfer.to = address then transfer.value else 0 := by
      rw [heq, outstandingTo, List.map_append, List.map_singleton, planned_concat]
      rfl
    have hbalance : w'.balances address = w.balances address := by rw [heq]
    rw [hafter, hbalance]
    by_cases hto : transfer.to = address
    · -- with the gap submitted, the target is what is read and the gap
      rw [hto] at hread
      simp only [covers, hpc, hto, hread, bne_self_eq_false, Bool.false_or, Option.all_some,
        decide_eq_true_eq, if_true, hvalue]
      omega
    · have hcovers : w.covers address .submit = true := by simp [covers, hpc, hto]
      rw [if_neg hto]
      exact iff_of_true h hcovers
  | mines position success _ => exact iff_of_true ((mine_moves hstep address).1.trans h) rfl
  | spends other wei heq =>
    have hless : w'.balances address ≤ w.balances address := by
      have hafter : w'.balances address =
          Function.update w.balances other (w.balances other - wei) address := by rw [heq]
      rw [hafter, Function.update_apply]
      split
      · rename_i hsame
        rw [hsame]
        exact Nat.sub_le _ _
      · exact Nat.le_refl _
    have hout : w'.outstandingTo address = w.outstandingTo address := by rw [heq]; rfl
    exact iff_of_true (by omega) rfl
  | credits other wei heq =>
    -- somebody adds to another address
    have hsame : w'.balances address = w.balances address := by
      rw [heq]
      exact Function.update_of_ne (Ne.symm hkind) _ _
    have hout : w'.outstandingTo address = w.outstandingTo address := by rw [heq]; rfl
    exact iff_of_true (by omega) rfl

/-- Through any sequence of runs with one target and distinct addresses, and whatever becomes of
    their transfers, an address that started within the target stays there exactly when each
    transfer to it is submitted on a balance that covers what the address holds and what is on
    the way to it. -/
theorem overfunds_iff {balances : Hex → Nat} {as : List SweepAction}
    (hrepeats : ∀ a ∈ as, Repeats toLowerCase target address a)
    (hstart : balances address ≤ target) :
    Always (step toLowerCase) (NeverOver toLowerCase target address) (new balances) as ↔
      Along (step toLowerCase) (fun w a => w.covers address a = true) (new balances) as := by
  refine always_iff_along_on (J := fun w => w.pc.Planned toLowerCase target)
    (fun _ _ _ hkind h hstep => planned_step hkind h hstep) ?_ as hrepeats trivial ?_
  · intro w a w' hkind hplanned h hstep
    rw [neverOver_iff] at h ⊢
    exact within_step_iff hkind hplanned h hstep
  · rw [neverOver_iff]
    exact hstart

/-! ## Two runs -/

/-- The run of the sample has its target and one address. -/
private theorem sample_repeats :
    Repeats String.toLower 15000000000000000 "0xload-0" (.start (repeatedSweep ["dev"])) := by
  refine ⟨by decide +kernel, fun workers hprepare => ?_⟩
  have hsample : (repeatedSweep ["dev"]).prepare String.toLower = .ok sampleWorkers := by
    decide +kernel
  rw [hsample, Except.ok.injEq] at hprepare
  rw [← hprepare]
  decide +kernel

/-- Two runs to a target of 0.015 ETH. The first is through before the second reads. -/
def promptRun : List SweepAction :=
  [.start (repeatedSweep ["dev"]), .read 0, .decide, .submit, .mine 0 true, .receipt, .stop,
    .spend "0xload-0" 5000000000000000, .start (repeatedSweep ["dev"]), .read 0, .decide, .submit,
    .mine 0 true, .receipt, .stop]

/-- The address is topped up twice, and never over the target. -/
theorem prompt_transfers_fit :
    Always (step String.toLower) (NeverOver String.toLower 15000000000000000 "0xload-0")
      (new fun _ => 0) promptRun := by
  refine (overfunds_iff ?_ (Nat.zero_le _)).mpr (by decide +kernel)
  simp only [promptRun, List.forall_mem_cons]
  exact ⟨sample_repeats, trivial, trivial, trivial, trivial, trivial, trivial, trivial,
    sample_repeats, trivial, trivial, trivial, trivial, trivial, trivial, List.forall_mem_nil _⟩

/-- Likewise, but the first run waits for its transfer in vain, and the second reads the balance
    before that transfer is mined. -/
def lateRun : List SweepAction :=
  [.start (repeatedSweep ["dev"]), .read 0, .decide, .submit, .stop,
    .start (repeatedSweep ["dev"]), .read 0, .decide, .submit, .mine 0 true, .mine 0 true,
    .receipt, .stop]

/-- The chain it leaves. -/
def lateSweeps : Sweeps :=
  (exec (step String.toLower) (new fun _ => 0) lateRun).getD (new fun _ => 0)

/-- Both transfers are mined: the address holds twice the target. -/
theorem late_transfer_overfunds :
    (∀ a ∈ lateRun, Repeats String.toLower 15000000000000000 "0xload-0" a) ∧
      exec (step String.toLower) (new fun _ => 0) lateRun = some lateSweeps ∧
      lateSweeps.balances "0xload-0" = 30000000000000000 ∧
      ¬ Always (step String.toLower) (fun w => w.balances "0xload-0" ≤ 15000000000000000)
        (new fun _ => 0) lateRun := by
  have hexec : exec (step String.toLower) (new fun _ => 0) lateRun = some lateSweeps :=
    exec_getD (by decide +kernel) _
  have hdouble : lateSweeps.balances "0xload-0" = 30000000000000000 := by decide +kernel
  refine ⟨?_, hexec, hdouble, ?_⟩
  · simp only [lateRun, List.forall_mem_cons]
    exact ⟨sample_repeats, trivial, trivial, trivial, trivial, sample_repeats, trivial, trivial,
      trivial, trivial, trivial, trivial, trivial, List.forall_mem_nil _⟩
  · intro h
    -- the bound fails in the last state of the run
    have hwithin := h.last hexec
    omega

end Sweeps

end ContractPinger
