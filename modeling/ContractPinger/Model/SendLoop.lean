import ContractPinger.Model.FundWorkers

/-!
# The send loop of the funding sweep

The rest of `main` in `scripts/fund-workers.ts`: the transfers one after the other, each
waited for, and the checks on what they left behind. What the chain makes of a transfer is
given, and so are the balances read at the end.
-/

namespace ContractPinger

/-- A transfer that was mined: whether it went through, and what its gas cost. -/
structure MinedTransfer where
  success : Bool
  fee : Nat
deriving DecidableEq, Repr

/-- What comes of a round of the loop, `sendTransaction` and `waitForTransactionReceipt`. -/
inductive SendRound
  /-- One of the two throws. The transfer may have been mined all the same. -/
  | threw (error : JsError) (mined : Option MinedTransfer)
  /-- A receipt; the loop goes on whatever its status. -/
  | receipt (mined : MinedTransfer)
deriving DecidableEq, Repr

namespace SendRound

/-- The transfer, if it was mined. -/
def mined : SendRound → Option MinedTransfer
  | .threw _ mined => mined
  | .receipt mined => some mined

/-- What the round moves of a value: a transfer that reverts returns it. -/
def moved (round : SendRound) (value : Nat) : Nat :=
  match round.mined with
  | some m => if m.success then value else 0
  | none => 0

/-- What the round costs the wallet. -/
def cost (round : SendRound) (value : Nat) : Nat :=
  round.moved value + (round.mined.map MinedTransfer.fee).getD 0

end SendRound

/-- The rounds the loop goes through, from a position in the plan on. -/
def sendRounds (outcome : Nat → SendRound) (position : Nat) :
    List Transfer → List (Transfer × SendRound)
  | [] => []
  | transfer :: rest =>
    match outcome position with
    -- nothing of the rest is sent
    | .threw error mined => [(transfer, .threw error mined)]
    | .receipt mined =>
      -- the status of a receipt is not looked at
      (transfer, .receipt mined) :: sendRounds outcome (position + 1) rest

/-- What the rounds cost the wallet. -/
def spent (rounds : List (Transfer × SendRound)) : Nat :=
  (rounds.map fun r => r.2.cost r.1.value).sum

/-- What the rounds sent to an address. -/
def received (rounds : List (Transfer × SendRound)) (address : Hex) : Nat :=
  (rounds.map fun r => if r.1.to = address then r.2.moved r.1.value else 0).sum

namespace Sweep

/-- `fundedAt`: what counts as funded once the transfers have landed. -/
def fundedAt (run : Sweep) : Nat :=
  if run.args.topUp.isSome then run.topUpTo else run.env.bidirectional.minBalanceWei

/-- `stillShort`. -/
def stillShort (run : Sweep) (workers : List SweepWorker) (after : Nat → Nat) :
    List SweepWorker :=
  (workers.zipIdx.filter fun entry => decide (after entry.2 < run.fundedAt)).map Prod.fst

/-- The check of the reserve, on what the wallet holds at the end. -/
def checkReserve (run : Sweep) (remaining : Int) : Except String Unit :=
  if remaining < run.env.funding.reserve then
    .error ("funding wallet is below its " ++ formatEther run.env.funding.reserve ++
      " ETH reserve")
  else .ok ()

/-- The check of the addresses. -/
def checkFunded (run : Sweep) (workers : List SweepWorker) (after : Nat → Nat) :
    Except String Unit :=
  let short := run.stillShort workers after
  if 0 < short.length then
    .error ("still short after funding: " ++
      String.intercalate ", " (short.map fun w => w.env.name ++ "/" ++ w.worker.path))
  else .ok ()

/-- What `main` ends with after its rounds: an exception reaches its `catch`. -/
def conclude (run : Sweep) (workers : List SweepWorker) (rounds : List (Transfer × SendRound))
    (after : Nat → Nat) (remaining : Int) : Except String Unit :=
  match rounds.getLast? with
  -- the loop ended in an exception: neither check is reached
  | some (_, .threw error _) => .error (thrown error)
  | _ => do
    run.checkReserve remaining
    run.checkFunded workers after

/-- `main`, from its start to its end. -/
def complete (run : Sweep) (toLowerCase : String → String) (outcome : Nat → SendRound)
    (after : Nat → Nat) (remaining : Int) : Except String Unit := do
  let workers ← run.prepare toLowerCase
  let transfers ← run.main toLowerCase
  -- with nothing to send, or in a dry run, `main` returns before the loop
  if (run.plan workers).length = 0 ∨ run.args.dryRun then return ()
  run.conclude workers (sendRounds outcome 0 transfers) after remaining

end Sweep

end ContractPinger
