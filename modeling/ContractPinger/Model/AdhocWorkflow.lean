import ContractPinger.Model.AdhocTopUp
import ContractPinger.Model.EnvSchema
import ContractPinger.Model.FundWorkers

/-!
# The ad hoc workflow, from its variables

`sol-bidirectional-adhoc.yml`: the job that funds and the job that drives load, each with a
process environment of its own. The step that sizes the top-up gets its figures from
`pnpm fund:config`, one text for each, and hands the target to `pnpm fund` as another.
-/

namespace ContractPinger

open Rounding

/-! ## The target -/

/-- Python's `Decimal` of a text, for the numerals that the schema accepts. -/
def decimalOf (text : String) : Option ℚ := (Decimals.parse text.toList).map Decimals.Numeral.value

/-- Python's `str` of the `Decimal` of `coefficient` units, of which one has `10 ^ places`. -/
def decimalString (coefficient places : Nat) : String :=
  let digits := Nat.toDigits 10 coefficient
  String.ofList <|
    -- `leftdigits > -6`
    if places < digits.length + 6 then
      if digits.length ≤ places then
        '0' :: '.' :: List.replicate (places - digits.length) '0' ++ digits
      else if places = 0 then digits
      else
        digits.take (digits.length - places) ++ '.' :: digits.drop (digits.length - places)
    else
      -- scientific notation, with one digit before the point
      digits.take 1 ++ (if digits.length = 1 then [] else '.' :: digits.drop 1) ++
        'E' :: '-' :: Nat.toDigits 10 (places + 1 - digits.length)

/-- `prog`: the text it prints, or none where it raises. The jobs and the paths are counts. -/
def topUpProgram (floorWei : String) (jobs paths : Nat) (gasPerRun gasMargin bandTopUp : String) :
    Option String := do
  let floorWei ← decimalOf floorWei
  let gasPerRun ← decimalOf gasPerRun
  let gasMargin ← decimalOf gasMargin
  let bandTopUp ← decimalOf bandTopUp
  if paths = 0 then none
  else
    let floor := toDigits decimalPrecision (floorWei / 10 ^ 18)
    let perAddress : ℤ := -(-(jobs : ℤ) / paths)
    let gas := toDigits decimalPrecision (perAddress * gasPerRun)
    let need := toDigits decimalPrecision (gas * gasMargin)
    let target := halfEven (max (toDigits decimalPrecision (floor + need)) bandTopUp * 10 ^ 18)
    if target < 10 ^ decimalPrecision then some (decimalString target.toNat 18) else none

/-- `FLOOR_WEI`, `BAND_TOPUP_ETH`, `GAS_PER_RUN_ETH` and `GAS_MARGIN` are outputs of the step
    before, by name. -/
def fundingTarget (config : List (String × String)) (jobs paths : Nat) : Option String := do
  let floorWei ← config.lookup "min_balance_wei"
  let bandTopUp ← config.lookup "topup_eth"
  let gasPerRun ← config.lookup "gas_per_run_eth"
  let gasMargin ← config.lookup "gas_margin"
  topUpProgram floorWei jobs paths gasPerRun gasMargin bandTopUp

/-! ## The two jobs -/

/-- A run of the workflow: its inputs, and what its jobs run in. -/
structure AdhocWorkflow where
  jobs : Nat
  environment : Environment
  paths : Nat
  /-- Whether the addresses are to be topped up first. -/
  fund : Bool
  fundEnv : ProcessEnv
  loadEnv : ProcessEnv

namespace AdhocWorkflow

variable (zod : Zod) (parseEther : String → Except JsError Nat) (libs : Libraries)

/-- `pnpm fund --env "${ENV}" --topup "${target}"`, or none where the step does not get there. -/
def sweep (w : AdhocWorkflow) (reads : SweepReads) : Option Sweep := do
  let fund ← (parse zod w.fundEnv).toOption
  -- not requested, or no funding key: the addresses are used as they stand
  if w.fund = false ∨ w.fundEnv.setting .fundingSk = none then none
  else
    let target ← fundingTarget fund.fundConfig w.jobs w.paths
    let env ← (fund.env parseEther).toOption
    let topUp ← (parseEther target).toOption
    return { env, libs, args := { envs := [w.environment.name], topUp := some topUp }, reads }

/-- The service that the load test job starts, for the network of the inputs. -/
def service (w : AdhocWorkflow) : Option Setup := do
  let load ← (parse zod w.loadEnv).toOption
  let env ← (load.env parseEther).toOption
  return { env, libs, environment := w.environment }

/-- The variables that both jobs are given from the same place. -/
def sharedVariables : List Variable := [.solSk, .solRootPublicKey, .paths, .pathPrefix,
  .minBalanceWei]

/-- What the file of the workflow fixes. -/
structure Configured (w : AdhocWorkflow) : Prop where
  shared : ∀ v ∈ sharedVariables, w.fundEnv.setting v = w.loadEnv.setting v
  /-- The paths are the input of that name, which the program reads too. -/
  paths : w.fundEnv.setting .paths = some (toString w.paths)
  /-- The step that validates the secrets lets no empty one pass. -/
  secret : (w.loadEnv.setting .solSk).isSome = true
  /-- The networks to choose from are dev and testnet. -/
  network : w.environment ≠ .mainnet

end AdhocWorkflow

end ContractPinger
