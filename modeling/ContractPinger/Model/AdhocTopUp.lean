import ContractPinger.ForStd.Payments
import ContractPinger.ForStd.Rounding
import ContractPinger.Model.World

/-!
# The ad hoc load test and its top-up

The program that `sol-bidirectional-adhoc.yml` sizes a top-up with, and the run it is for: a
service whose jobs spend from what their addresses hold, which nobody adds to.
-/

namespace ContractPinger

open Rounding

/-! ## The target -/

/-- The precision of Python's default decimal context. -/
def decimalPrecision : Nat := 28

/-- `target`, in wei, or none where the program raises. A `Decimal` is its value, and every
    operation on two of them rounds to the precision; the figures are in ETH, of which the gas
    per run has 18 decimals at most. -/
def topUpTarget (floorWei jobs paths gasPerRun gasMargin : Nat) (bandTopUpEth : ℚ) : Option ℤ :=
  if paths = 0 then none
  else
    let floor := toDigits decimalPrecision (floorWei / 10 ^ 18)
    let perAddress : ℤ := -(-(jobs : ℤ) / paths)
    let gas := toDigits decimalPrecision (perAddress * (gasPerRun / 10 ^ 18))
    let need := toDigits decimalPrecision (gas * gasMargin)
    -- `quantize` refuses a coefficient of more digits than the precision
    let target := halfEven (max (toDigits decimalPrecision (floor + need)) bandTopUpEth * 10 ^ 18)
    if target < 10 ^ decimalPrecision then some target else none

/-! ## The run -/

/-- A service, with what its addresses held at the start, by path, and what the jobs have paid
    since: the job, its path and the amount. -/
structure FundedService where
  world : World
  start : String → Nat
  spent : List (Nat × String × Nat) := []

/-- What can happen next. -/
inductive FundedAction
  | service (action : Action)
  /-- The transaction of a job is mined, at the given cost. -/
  | spend (job wei : Nat)

namespace FundedService

/-- A service that has just started. -/
def new (s : Setup) (now : Millis) (start : String → Nat) : FundedService :=
  { world := World.new s now, start }

/-- What the addresses hold: nobody adds to it during the run. -/
def balances (w : FundedService) : String → Nat :=
  Accounts.payAll w.start (w.spent.map Prod.snd)

/-- One step. -/
def step (s : Setup) (w : FundedService) : FundedAction → Option FundedService
  | .service action => (World.step s w.world action).map fun world => { w with world }
  | .spend job wei =>
    (w.world.frames[job]?).bind fun f =>
      f.worker.bind fun path =>
        -- a job has one transaction, and an address pays no more than it holds
        if job ∉ w.spent.map Prod.fst ∧ wei ≤ w.balances path then
          some { w with spent := w.spent ++ [(job, path, wei)] }
        else none

/-- What a leased address pays for one job at most, on top of the floor. -/
def enough (s : Setup) (gas : Nat) : Nat := s.env.bidirectional.minBalanceWei + gas

/-- The node's answer to a job: a balance is what the address held at some instant of the run,
    a job asks for no more than is enough, and only an address that holds less is refused an
    estimate for want of funds. -/
def fairAnswer (s : Setup) (gas : Nat) (w : FundedService) (f : Frame) : Reply → Bool
  | .balance wei =>
    match f.pc, f.worker with
    | .refreshingUnderfunded (path :: _), _ => decide (w.balances path ≤ wei)
    | .readingBalance, some path => decide (w.balances path ≤ wei)
    | _, _ => true
  | .gas estimate =>
    match f.pc, f.worker with
    | .estimatingGas _ nonce fees, some path =>
      decide ((assembleTransaction s.libs s.environment f.mode (w.world.pool.address path)
        (s.env.bidirectional.erc20Address.getD s.environment.erc20) nonce fees
        estimate).gasCostWei ≤ enough s gas)
    | _, _ => true
  | .throw e =>
    match f.pc, f.worker with
    | .readingNonce _, some path =>
      !mentionsInsufficientFunds e.toString || decide (w.balances path < enough s gas)
    | .estimatingGas _ _ _, some path =>
      !mentionsInsufficientFunds e.toString || decide (w.balances path < enough s gas)
    | _, _ => true
  | _ => true

/-- Jobs spend `gas` at most, and the node's answers are fair. -/
def affordable (s : Setup) (gas : Nat) (w : FundedService) : FundedAction → Bool
  | .spend _ wei => decide (wei ≤ gas)
  | .service (.resume job reply) =>
    (w.world.frames[job]?).all fun f => w.fairAnswer s gas f reply
  | .service (.resumeRequest request (.balance wei)) =>
    match w.world.requests[request]? with
    | some (.refreshing (path :: _)) => decide (w.balances path ≤ wei)
    | _ => true
  | .service _ => true

end FundedService

end ContractPinger
