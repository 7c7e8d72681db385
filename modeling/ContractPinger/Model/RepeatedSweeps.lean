import ContractPinger.Model.SendLoop

/-!
# One sweep after another

The sweep of `scripts/fund-workers.ts` as `fund-bidirectional-workers.yml` repeats it: runs that
never overlap, on a chain that mines a submitted transfer when it likes. A run reads the
balances, decides and makes its transfers one after the other, each waited for; it may end at
any point, and what it has submitted stays submitted.
-/

namespace ContractPinger

/-- Where the run in progress stands. -/
inductive SweepPc
  | idle
  /-- The balances of the workers are being read, in no particular order: the answers so far. -/
  | reading (run : Sweep) (workers : List SweepWorker) (answers : List (Option Nat))
  /-- The send loop, with what the run has read of each address. -/
  | sending (read : List (Hex × Nat)) (rest : List Transfer)
  /-- `waitForTransactionReceipt`. -/
  | waiting (tx : Nat) (read : List (Hex × Nat)) (rest : List Transfer)

/-- The chain, and the run in progress on it. -/
structure Sweeps where
  balances : Hex → Nat
  /-- The transfers submitted and not mined, with their numbers. -/
  outstanding : List (Nat × Transfer) := []
  /-- How many transfers have been submitted. -/
  submitted : Nat := 0
  pc : SweepPc := .idle

/-- What can happen next. -/
inductive SweepAction
  /-- A run is started, and goes as far as the balances. -/
  | start (run : Sweep)
  /-- The balance of the worker at a position is read. -/
  | read (position : Nat)
  /-- From the balances to the send loop. -/
  | decide
  /-- `sendTransaction`. -/
  | submit
  | receipt
  /-- The run ends: its loop is through, a wait has timed out, a call has failed (after a
      `submit`, when the node has the transfer all the same), the process has been stopped. -/
  | stop
  /-- The outstanding transfer at a position is mined. -/
  | mine (position : Nat) (success : Bool)
  /-- A worker spends. -/
  | spend (address : Hex) (wei : Nat)
  /-- Somebody else adds to an address. -/
  | credit (address : Hex) (wei : Nat)

/-- A run that has read the given balances. -/
def Sweep.withBalances (run : Sweep) (balances : Nat → Nat) : Sweep :=
  { run with reads := { run.reads with balances } }

namespace Sweeps

/-- Nothing has been started, and nothing is outstanding. -/
def new (balances : Hex → Nat) : Sweeps := { balances }

/-- `balances`, once all of them have been read. -/
def answered (answers : List (Option Nat)) (position : Nat) : Nat :=
  (answers[position]?.bind id).getD 0

/-- From the balances to the send loop. -/
def decided (toLowerCase : String → String) (run : Sweep) (workers : List SweepWorker)
    (answers : List (Option Nat)) : SweepPc :=
  match (run.withBalances (answered answers)).main toLowerCase with
  | .error _ => .idle
  | .ok transfers =>
    .sending (workers.zipIdx.map fun (w, i) => (w.worker.address, answered answers i)) transfers

/-- One step. -/
def step (toLowerCase : String → String) (w : Sweeps) : SweepAction → Option Sweeps
  | .start run =>
    match w.pc with
    -- the workflow queues a run behind the one in progress
    | .idle =>
      match run.prepare toLowerCase with
      | .error _ => some w
      | .ok workers =>
        some { w with pc := .reading run workers (List.replicate workers.length none) }
    | _ => none
  | .read position =>
    match w.pc with
    | .reading run workers answers =>
      match workers[position]?, answers[position]? with
      | some worker, some none =>
        some { w with pc := .reading run workers
                        (answers.set position (some (w.balances worker.worker.address))) }
      | _, _ => none
    | _ => none
  | .decide =>
    match w.pc with
    | .reading run workers answers =>
      if answers.all Option.isSome then
        some { w with pc := decided toLowerCase run workers answers }
      else none
    | _ => none
  | .submit =>
    match w.pc with
    | .sending read (transfer :: rest) =>
      some { w with
        outstanding := w.outstanding ++ [(w.submitted, transfer)]
        submitted := w.submitted + 1
        pc := .waiting w.submitted read rest }
    | _ => none
  | .receipt =>
    match w.pc with
    | .waiting tx read rest =>
      -- there is a receipt once the transfer is mined; its status is not looked at
      if tx ∈ w.outstanding.map Prod.fst then none else some { w with pc := .sending read rest }
    | _ => none
  | .stop => some { w with pc := .idle }
  | .mine position success =>
    w.outstanding[position]?.map fun (_, transfer) =>
      { w with
        outstanding := w.outstanding.eraseIdx position
        balances :=
          if success then
            Function.update w.balances transfer.to (w.balances transfer.to + transfer.value)
          else w.balances }
  | .spend address wei =>
    if wei ≤ w.balances address then
      some { w with balances := Function.update w.balances address (w.balances address - wei) }
    else none
  | .credit address wei =>
    some { w with balances := Function.update w.balances address (w.balances address + wei) }

end Sweeps

end ContractPinger
