import ContractPinger.Model.BidirectionalTx

/-!
# The `/ping` handler of Ethereum

`src/handlers/ethereum.ts`, `src/utils/evmTransactions.ts` and `src/utils/initEvm.ts`, with
the rotating key of `src/utils/env.ts`. A request runs without interruption between its
`await`s. `submitted` lists what its node has been sent: no node is part of this repository,
and of this one only what the code relies on is assumed, that its pending count includes
every transaction it was sent.
-/

namespace ContractPinger

/-- What the handler reads: its configuration, and `SIG_EVM_SK_1` to `SIG_EVM_SK_5`. -/
structure PingSetup where
  env : Env
  libs : Libraries
  evmSk : Nat → Option String

/-- The overrides `getCustomTransactionArgs` resolves to. -/
structure TransactionArgs where
  maxFeePerGas : Nat
  maxPriorityFeePerGas : Nat
  nonce : Nat
deriving DecidableEq, Repr

/-- An account of one chain: where nonces are counted. -/
structure ChainAccount where
  chainId : Nat
  address : Hex
deriving DecidableEq, Repr

/-- A transaction the node was sent. -/
structure SubmittedTx where
  account : ChainAccount
  args : TransactionArgs
deriving DecidableEq, Repr

/-- Where a request stands. -/
inductive PingPc
  /-- Awaiting `estimateFeesPerGas`. -/
  | estimatingFees
  /-- Awaiting `getTransactionCount` at `pending`. -/
  | countingPending (fees : Fees)
  /-- In `createSignatureRequest`, which has not sent its transaction yet. -/
  | submitting (args : TransactionArgs)
  /-- In `createSignatureRequest`, which has. -/
  | submitted (args : TransactionArgs)
  | ended (outcome : Except JsError Unit)

/-- A call of `execute`. -/
structure PingRequest where
  account : ChainAccount
  pc : PingPc

/-- The process, as far as the handler goes. -/
structure PingService where
  evmKeyIndex : Nat := 0
  requests : List PingRequest := []
  submitted : List SubmittedTx := []

/-- What can happen next. -/
inductive PingAction
  | execute (environment : Environment) (checkSignature : Bool)
  | fees (request : Nat) (answer : Except JsError Fees)
  | pendingCount (request : Nat) (answer : Except JsError Nat)
  /-- The transaction of a request reaches the node. -/
  | submit (request : Nat)
  /-- `createSignatureRequest` settles. -/
  | settle (request : Nat) (outcome : Except JsError Unit)

/-- The variable `initEthereum` asks for when the URL is missing. -/
def ethereumRpcVariable : Environment → String
  | .mainnet => "SIG_ETH_RPC_URL_MAINNET"
  | .dev => "SIG_ETH_RPC_URL_SEPOLIA"
  | .testnet => "SIG_ETH_RPC_URL_SEPOLIA"

/-- `env.evmSk`: rotates on each read; all five slots are visited. -/
def PingSetup.readEvmSk (s : PingSetup) (evmKeyIndex : Nat) : String × Nat :=
  let evmKeyIndex := evmKeyIndex % 5 + 1
  ((s.evmSk evmKeyIndex).getD "", evmKeyIndex)

/-- `initEthereum`, with the key it was given: the account it signs from. -/
def PingSetup.initEthereum (s : PingSetup) (environment : Environment) (evmSk : String) :
    Except JsError ChainAccount := do
  if s.env.ethereumRpcUrl environment = "" then
    throw { message := "Ethereum RPC URL for " ++ environment.name ++
      " environment is missing. Please set " ++ ethereumRpcVariable environment ++
      " in your environment." }
  if evmSk = "" then
    throw { message := "EVM secret key for " ++ environment.name ++
      " environment is missing. Please set the evmSk environment variable." }
  s.libs.createPublicClient environment (s.env.ethereumRpcUrl environment)
  let address ← s.libs.privateKeyToAccount (withHexPrefix evmSk)
  return { chainId := environment.chainId, address }

/-- The account of a call that failed before it had one. -/
def noAccount : ChainAccount := { chainId := 0, address := "" }

/-- `execute` up to its first `await`. The key is rotated whatever becomes of the call. -/
def PingService.execute (s : PingSetup) (service : PingService) (environment : Environment)
    (checkSignature : Bool) : PingService :=
  let key := s.readEvmSk service.evmKeyIndex
  let request : PingRequest :=
    match s.initEthereum environment key.1 with
    | .error e => { account := noAccount, pc := .ended (.error e) }
    | .ok account =>
      -- refused once the client is built, so a missing key or URL is reported first
      if checkSignature then
        let e : JsError :=
          { message :=
              "Ethereum can not be called with check=true due to long finalization time" }
        { account, pc := .ended (.error e) }
      else { account, pc := .estimatingFees }
  { service with evmKeyIndex := key.2, requests := service.requests ++ [request] }

/-- `getCustomTransactionArgs`, from the answers to its reads. -/
def customTransactionArgs (fees : Fees) (nonce : Nat) : TransactionArgs :=
  { maxFeePerGas := fees.maxFeePerGas * 12 / 10
    maxPriorityFeePerGas := fees.maxPriorityFeePerGas * 12 / 10
    nonce }

namespace PingService

/-- The node's pending count of an account may be `count`: every transaction it was sent
    from there is included. -/
def counts (service : PingService) (account : ChainAccount) (count : Nat) : Bool :=
  service.submitted.all fun tx => tx.account != account || decide (tx.args.nonce < count)

/-- A request goes on. -/
def goOn (service : PingService) (request : Nat) (r : PingRequest) (pc : PingPc) : PingService :=
  { service with requests := service.requests.set request { r with pc } }

/-- One step; `none` when the request is not there, or not at the `await` the action is about. -/
def step (s : PingSetup) (service : PingService) : PingAction → Option PingService
  | .execute environment checkSignature =>
    some (service.execute s environment checkSignature)
  | .fees request answer =>
    (service.requests[request]?).bind fun r =>
      match r.pc, answer with
      | .estimatingFees, .ok fees => some (service.goOn request r (.countingPending fees))
      | .estimatingFees, .error e => some (service.goOn request r (.ended (.error e)))
      | _, _ => none
  | .pendingCount request answer =>
    (service.requests[request]?).bind fun r =>
      match r.pc, answer with
      | .countingPending fees, .ok count =>
        -- the answer includes what was sent from the account, by whatever request
        if service.counts r.account count then
          some (service.goOn request r (.submitting (customTransactionArgs fees count)))
        else none
      | .countingPending _, .error e => some (service.goOn request r (.ended (.error e)))
      | _, _ => none
  | .submit request =>
    (service.requests[request]?).bind fun r =>
      match r.pc with
      | .submitting args =>
        some { service.goOn request r (.submitted args) with
          submitted := service.submitted ++ [{ account := r.account, args }] }
      | _ => none
  | .settle request outcome =>
    (service.requests[request]?).bind fun r =>
      match r.pc, outcome with
      -- it may fail before its transaction is sent, but not succeed
      | .submitting _, .error e => some (service.goOn request r (.ended (.error e)))
      | .submitted _, outcome => some (service.goOn request r (.ended outcome))
      | _, _ => none

end PingService

end ContractPinger
