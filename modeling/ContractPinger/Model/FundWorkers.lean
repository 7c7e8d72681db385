import ContractPinger.Model.BidirectionalTx
import ContractPinger.Model.WorkerPool

/-!
# The funding sweep

`scripts/fund-workers.ts`, up to its send loop. The sweep derives the addresses itself,
compares them with what a running service reports, and decides what to send. Everything it
awaits is answered by `SweepReads`; `fail` ends the process, so here it is an error.
`toLowerCase` is JavaScript's, and a parameter: nothing depends on what it does to a letter.
-/

namespace ContractPinger

/-- `formatEther`. -/
def formatEther (wei : Nat) : String :=
  let digits := (toString (wei % 10 ^ 18)).toList
  let fraction := (List.replicate (18 - digits.length) '0' ++ digits).reverse.dropWhile (· == '0')
  toString (wei / 10 ^ 18) ++
    if fraction.isEmpty then "" else "." ++ String.ofList fraction.reverse

/-- `PLAIN_TRANSFER_GAS`. -/
def plainTransferGas : Nat := 21000

/-- What `Number` makes of `--paths`. -/
inductive PathsArg
  | count (n : Nat)
  /-- No count: how it prints, and how many slots `Array.from` makes of it. -/
  | other (shown : String) (slots : Nat)
deriving DecidableEq, Repr

namespace PathsArg

/-- The `length` that `Array.from` reads. -/
def slots : PathsArg → Nat
  | count n => n
  | other _ slots => slots

/-- The number in a text. -/
def shown : PathsArg → String
  | count n => toString n
  | other shown _ => shown

/-- Equality with a length: no length equals what is not a count. -/
def equals : PathsArg → Nat → Bool
  | count n, length => n == length
  | other _ _, _ => false

end PathsArg

/-- The command line. -/
structure SweepArgs where
  /-- `--env`, split at commas, trimmed and without empty parts. -/
  envs : List String := ["testnet"]
  paths : Option PathsArg := none
  /-- `--topup`, as `parseEther` reads it. -/
  topUp : Option Nat := none
  url : Option String := none
  dryRun : Bool := false
deriving DecidableEq, Repr

/-- An entry of `workers` in the service's answer; a missing address is none. -/
structure ReportedWorker where
  path : String
  address : Option String
deriving DecidableEq, Repr

/-- What comes of fetching `GET /sign_bidirectional/workers`. -/
inductive WorkersReply
  | unreachable
  | status (code : Nat)
  | workers (reported : List ReportedWorker)
deriving DecidableEq, Repr

/-- A `DerivedWorker` with its network. -/
structure SweepWorker where
  worker : DerivedWorker
  env : Environment
deriving DecidableEq, Repr

/-- What the run reads from outside. -/
structure SweepReads where
  chainId : Nat
  /-- The service's answers, by position in `--env`. -/
  replies : Nat → WorkersReply
  /-- By position among the workers. -/
  balances : Nat → Nat
  maxFeePerGas : Nat
  sourceBalance : Nat

/-- A transfer the send loop will make. -/
structure Transfer where
  «to» : Hex
  value : Nat
deriving DecidableEq, Repr

/-- A run of the sweep. -/
structure Sweep where
  env : Env
  libs : Libraries
  args : SweepArgs := {}
  reads : SweepReads

/-- `env in ENVIRONMENTS`, but for the names every object has: with one of those the run ends
    a little later, at `ETHEREUM_TARGETS`. -/
def Environment.ofName (name : String) : Option Environment :=
  [Environment.dev, .testnet, .mainnet].find? fun e => e.name == name

/-- A `JsError` that rejects `main` reaches its `catch`. -/
def thrown (e : JsError) : String := e.toString

/-! ## The cross-check -/

section CrossCheck

variable (toLowerCase : String → String) (network : Environment)

/-- The first of the differences: how many there are. -/
def sizeDifference (mine theirs : List (String × String)) : List String :=
  if mine.length ≠ theirs.length then
    ["this run derived " ++ toString mine.length ++ " address(es), the service reports " ++
      toString theirs.length ++ " — " ++
      "SIG_BIDIRECTIONAL_PATHS or SIG_BIDIRECTIONAL_PATH_PREFIX disagree"]
  else []

/-- The differences of the loop: a path that both have, at another address. -/
def addressDifferences (mine theirs : List (String × String)) : List String :=
  mine.filterMap fun entry =>
    match theirs.lookup entry.1 with
    | none => none
    | some other =>
      -- an empty address is as falsy as a missing one
      if other ≠ "" ∧ other ≠ entry.2 then
        some (entry.1 ++ ": this run derived " ++ entry.2 ++ ", the service reports " ++ other ++
          " — SIG_SOL_ROOT_PUBLIC_KEY or the requester key disagree")
      else none

/-- The `Map` from path to address of the derived workers. -/
def mineOf (derived : List DerivedWorker) : List (String × String) :=
  (derived.map fun d => (d.path, toLowerCase d.address)).tableOf

/-- Likewise of the reported ones. -/
def theirsOf (reported : List ReportedWorker) : List (String × String) :=
  (reported.map fun w => (w.path, toLowerCase (w.address.getD ""))).tableOf

/-- `crossCheck`: what it logs when it lets the run go on, or what it fails with. -/
def crossCheck (derived : List DerivedWorker) : WorkersReply → Except String String
  | .unreachable => .ok ("  " ++ network.name ++ ": service unreachable, skipping cross-check")
  | .status code =>
    .ok ("  " ++ network.name ++ ": service returned " ++ toString code ++
      ", skipping cross-check")
  | .workers reported =>
    let mine := mineOf toLowerCase derived
    let theirs := theirsOf toLowerCase reported
    let differences := sizeDifference mine theirs ++ addressDifferences mine theirs
    if 0 < differences.length then
      .error ("configuration drift against the " ++ network.name ++ " service:\n  - " ++
        String.intercalate "\n  - " differences ++
        "\n\nNothing was sent. Funding the wrong addresses would starve the real " ++
        "pool while reporting success.")
    else
      .ok ("  " ++ network.name ++ ": agrees with the service (" ++ toString mine.length ++
        " addresses)")

end CrossCheck

namespace Sweep

/-! ## Configuration -/

/-- The networks of `--env`. -/
def networks (run : Sweep) : Except String (List Environment) :=
  run.args.envs.mapM fun name =>
    match Environment.ofName name with
    | some e => .ok e
    | none => .error "--env values must be among: dev, testnet, mainnet"

/-- Every network in one run must settle on the same Ethereum. -/
def oneChain (run : Sweep) (envs : List Environment) : Except String Unit :=
  if (envs.map Environment.chainId).dedup.length > 1 then
    .error (String.intercalate ", " run.args.envs ++
      " settle on different Ethereum networks. Fund them in separate runs.")
  else .ok ()

/-- `fundingKey`. -/
def fundingKey (run : Sweep) : Except String String :=
  let key := run.env.funding.key.getD ""
  if key = "" then .error "SIG_BIDIRECTIONAL_FUNDING_SK is not set" else .ok key

/-- `envs[0]`, of which the next line asks for the RPC URL. -/
def firstOf (envs : List Environment) : Except String Environment :=
  match envs with
  | [] => .error "Cannot read properties of undefined (reading 'rpcUrl')"
  | first :: _ => .ok first

/-- `rpcUrl`. -/
def rpcUrl (run : Sweep) (first : Environment) : Except String String :=
  let rpcUrl := run.env.ethereumRpcUrl first
  if rpcUrl = "" then
    .error ("No Ethereum RPC configured for " ++ first.name ++ " (chain " ++
      toString first.chainId ++ ")")
  else .ok rpcUrl

/-- `derivedRequester`. -/
def derivedRequester (run : Sweep) : Except String (Option String) :=
  if run.env.solSk = "" then .ok none
  else ((run.libs.publicKeyOf run.env.solSk).map some).mapError thrown

/-- The configured requester is only ever a check. -/
def checkRequester (run : Sweep) (derivedRequester : Option String) : Except String Unit :=
  match run.env.funding.requesterPubkey, derivedRequester with
  | some expected, some derived =>
    if expected ≠ "" ∧ derived ≠ "" ∧ expected ≠ derived then
      .error ("SIG_SOL_SK derives requester " ++ derived ++ ", but " ++
        "SIG_BIDIRECTIONAL_REQUESTER_PUBKEY says " ++ expected ++ ". " ++
        "Every worker address follows from this key, so the two must agree.")
    else .ok ()
  | _, _ => .ok ()

/-- `requester`. -/
def requester (run : Sweep) : Except String String := do
  let derivedRequester ← run.derivedRequester
  run.checkRequester derivedRequester
  let requester := (derivedRequester <|> run.env.funding.requesterPubkey).getD ""
  if requester = "" then
    .error ("Set SIG_SOL_SK to the key the service signs with (the requester is its " ++
      "public key), or SIG_BIDIRECTIONAL_REQUESTER_PUBKEY to that public key directly")
  else
    -- rejects a malformed value before anything is sent
    ((run.libs.newPublicKey requester).map fun _ => requester).mapError thrown

/-- `topUpTo`. -/
def topUpTo (run : Sweep) : Nat := run.args.topUp.getD run.env.funding.topUp

/-- `expectedWorkers`. -/
def expectedWorkers (run : Sweep) : PathsArg :=
  run.args.paths.getD (.count run.env.bidirectional.paths)

/-- The limits on one address. -/
def checkTopUp (run : Sweep) : Except String Unit :=
  let minBalance := run.env.bidirectional.minBalanceWei
  let maxPerAddress := run.env.funding.maxPerAddress
  if run.topUpTo ≤ minBalance then
    .error ("top-up target (" ++ formatEther run.topUpTo ++ ") must exceed the minimum (" ++
      formatEther minBalance ++ ")")
  else if run.topUpTo > maxPerAddress then
    .error ("top-up target (" ++ formatEther run.topUpTo ++ ") exceeds the per-address cap (" ++
      formatEther maxPerAddress ++ ")")
  else .ok ()

/-- `solanaRpc`. -/
def solanaRpc (run : Sweep) : Except String String :=
  if run.env.solRpcUrlDevnet = "" then .error "SIG_SOL_RPC_URL_DEV is not set"
  else .ok run.env.solRpcUrlDevnet

/-- The chain that the RPC reports. -/
def checkChainId (run : Sweep) (first : Environment) : Except String Unit :=
  if run.reads.chainId ≠ first.chainId then
    .error ("RPC reports chain " ++ toString run.reads.chainId ++ ", expected " ++
      toString first.chainId)
  else .ok ()

/-! ## The addresses -/

/-- The workers of one network, as many as expected. -/
def derive (run : Sweep) (requester : String) (network : Environment) :
    Except String (List SweepWorker) :=
  let context : SolanaContext :=
    { programId := run.libs.contractAddress network
      rootPublicKey := run.env.solRootPublicKey
      requester }
  let derived := deriveWorkerAddresses run.libs context
    (buildPaths run.env.bidirectional.pathPrefix run.expectedWorkers.slots)
  if run.expectedWorkers.equals derived.length then
    .ok (derived.map fun worker => { worker, env := network })
  else
    .error ("derived " ++ toString derived.length ++ " addresses for " ++ network.name ++
      ", expected " ++ run.expectedWorkers.shown)

/-- `workers`: those of every network in turn. -/
def deriveAll (run : Sweep) (requester : String) : List Environment →
    Except String (List SweepWorker)
  | [] => .ok []
  | network :: rest => do
    let workers ← run.derive requester network
    return workers ++ (← run.deriveAll requester rest)

/-- `workers.filter(w => w.env === network)`. -/
def ofNetwork (workers : List SweepWorker) (network : Environment) : List DerivedWorker :=
  (workers.filter fun w => w.env == network).map SweepWorker.worker

/-- The loop of cross-checks, from a position in `--env` on. -/
def crossChecks (run : Sweep) (toLowerCase : String → String) (workers : List SweepWorker)
    (position : Nat) : List Environment → Except String Unit
  | [] => .ok ()
  | network :: rest => do
    let _ ← crossCheck toLowerCase network (ofNetwork workers network)
      (run.reads.replies position)
    run.crossChecks toLowerCase workers (position + 1) rest

/-- There is a service to ask, and a secret to ask it with. -/
def asksService (run : Sweep) : Bool :=
  (run.args.url <|> run.env.funding.serviceUrl).any (· ≠ "") && run.env.apiSecret.any (· ≠ "")

/-- Reachable and disagreeing stops the run. -/
def checkService (run : Sweep) (toLowerCase : String → String) (workers : List SweepWorker)
    (envs : List Environment) : Except String Unit :=
  if run.asksService then run.crossChecks toLowerCase workers 0 envs else .ok ()

/-- `main` up to the addresses it is going to look at. -/
def prepare (run : Sweep) (toLowerCase : String → String) : Except String (List SweepWorker) := do
  let envs ← run.networks
  let _ ← run.fundingKey
  run.oneChain envs
  let first ← firstOf envs
  let rpcUrl ← run.rpcUrl first
  let requester ← run.requester
  run.checkTopUp
  let _ ← run.solanaRpc
  (run.libs.createPublicClient first rpcUrl).mapError thrown
  run.checkChainId first
  let workers ← run.deriveAll requester envs
  run.checkService toLowerCase workers envs
  return workers

/-! ## The decision -/

/-- `plan`: the addresses below the target, with what they are short of. -/
def plan (run : Sweep) (workers : List SweepWorker) : List Transfer :=
  workers.zipIdx.filterMap fun (w, i) =>
    let balance := run.reads.balances i
    if balance < run.topUpTo then
      some { «to» := w.worker.address, value := run.topUpTo - balance }
    else none

/-- The limits on the run. -/
def checkPlan (run : Sweep) (account : Hex) (plan : List Transfer) : Except String Unit :=
  let total := (plan.map Transfer.value).sum
  let gasBudget := plan.length * plainTransferGas * run.reads.maxFeePerGas
  let required := total + gasBudget + run.env.funding.reserve
  if total > run.env.funding.maxPerRun then
    .error (formatEther total ++ " ETH across " ++ toString plan.length ++
      " address(es) exceeds the " ++ "per-run cap of " ++ formatEther run.env.funding.maxPerRun ++
      " ETH. Raise " ++
      "SIG_BIDIRECTIONAL_FUND_MAX_PER_RUN_ETH deliberately, or fund fewer addresses.")
  else if run.reads.sourceBalance < required then
    .error ("funding wallet holds " ++ formatEther run.reads.sourceBalance ++ " ETH; needs " ++
      formatEther total ++ " to send, ~" ++ formatEther gasBudget ++ " for gas across " ++
      toString plan.length ++ " transfer(s), and a " ++ formatEther run.env.funding.reserve ++
      " reserve. " ++ "Top up " ++ account ++ ".")
  else .ok ()

/-- What the send loop is to make of a plan. -/
def transfers (run : Sweep) (account : Hex) (plan : List Transfer) :
    Except String (List Transfer) :=
  if plan.length = 0 then .ok []
  else (run.checkPlan account plan).map fun _ => if run.args.dryRun then [] else plan

/-- `main` up to its send loop: the transfers that the loop is to make. -/
def main (run : Sweep) (toLowerCase : String → String) : Except String (List Transfer) := do
  let workers ← run.prepare toLowerCase
  let fundingKey ← run.fundingKey
  let account ← (run.libs.privateKeyToAccount (withHexPrefix fundingKey)).mapError thrown
  run.transfers account (run.plan workers)

end Sweep

end ContractPinger
