import ContractPinger.Model.Basic

/-!
# Configuration and third-party code

`src/utils/env.ts` and `src/utils/initSolana.ts`, as far as the service and the funding
script read them, and the functions of signet.js, viem and web3.js they call. The latter
are a parameter: nothing is assumed of them here.
-/

namespace ContractPinger

/-- `env.bidirectional`. The counts are whole numbers by the schema. -/
structure BidirectionalEnv where
  paths : Nat := 10
  pathPrefix : String := "load"
  maxActiveJobs : Nat := 20
  maxJobs : Nat := 400
  retainedJobs : Nat := 1000
  maxRequestsPerMinute : Nat := 10
  txMode : TxMode := .ethSelfTransfer
  erc20Address : Option Hex := none
  minBalanceWei : Nat := 2000000000000000
  signatureTimeoutMs : Nat := 300000
  respondTimeoutMs : Nat := 2100000
  ethConfirmTimeoutMs : Nat := 600000
deriving DecidableEq, Repr

/-- `env.funding`, which the service never reads. Amounts are what `parseEther` makes of them. -/
structure FundingEnv where
  key : Option String := none
  requesterPubkey : Option String := none
  serviceUrl : Option String := none
  topUp : Nat := 9000000000000000
  maxPerAddress : Nat := 20000000000000000
  maxPerRun : Nat := 200000000000000000
  reserve : Nat := 5000000000000000
deriving DecidableEq, Repr

/-- `env`. -/
structure Env where
  apiSecret : Option String := none
  ethRpcUrlSepolia : String := ""
  ethRpcUrlMainnet : String := ""
  solRpcUrlDevnet : String := ""
  solRpcUrlMainnet : String := ""
  solSk : String := ""
  solRootPublicKey : Option String := none
  bidirectional : BidirectionalEnv := {}
  funding : FundingEnv := {}
deriving DecidableEq, Repr

/-- An `RSVSignature`. -/
structure RSVSignature where
  r : String
  s : String
  v : Nat
deriving DecidableEq, Repr

/-- `TransactionSerializableEIP1559`, with the fields `buildTransaction` sets. -/
structure UnsignedTransaction where
  chainId : Nat
  nonce : Nat
  «to» : Hex
  value : Nat := 0
  gas : Nat
  maxFeePerGas : Nat
  maxPriorityFeePerGas : Nat
  data : Option Hex := none
deriving DecidableEq, Repr

/-- The argument of `getRequestIdBidirectional`. -/
structure RequestIdArgs where
  sender : String
  payload : Hex
  caip2Id : String
  keyVersion : Nat
  path : String
  algo : String
  dest : String
  params : String
deriving DecidableEq, Repr

/-- The third-party functions the service calls synchronously. -/
structure Libraries where
  /-- `constants.CONTRACT_ADDRESSES.SOLANA`, by network. -/
  contractAddress : Environment → String
  /-- The base58 public key of `Keypair.fromSecretKey(JSON.parse(sk))`. -/
  publicKeyOf : String → Except JsError String
  /-- signet.js `deriveAddressAndPublicKey`: program address, root-key override, requester,
      path, key version. -/
  deriveAddress : String → Option String → String → String → Nat → Hex
  /-- signet.js `getRequestIdBidirectional`. -/
  getRequestIdBidirectional : RequestIdArgs → String
  /-- signet.js `EVM.finalizeTransactionSigning`, with one signature. -/
  finalizeTransactionSigning : UnsignedTransaction → RSVSignature → Except JsError Hex
  /-- viem `serializeTransaction` of an unsigned transaction. What it throws for does not reach
      it: a tip above the fee cap, where viem estimates the two fees together, or a malformed
      recipient, for which `estimateGas` has thrown before. -/
  serializeTransaction : UnsignedTransaction → Hex
  /-- viem `keccak256`. -/
  keccak256 : Hex → Hex
  /-- viem `recoverAddress`: hash, `r`, `s`, `yParity`. -/
  recoverAddress : Hex → Hex → Hex → Nat → Except JsError Hex
  /-- viem `getAddress`: the checksummed form, or an error for a malformed address. -/
  getAddress : Hex → Except JsError Hex
  /-- viem `encodeFunctionData` of `transfer(to, amount)`. -/
  encodeTransfer : Hex → Nat → Hex
  /-- viem `createPublicClient` over `http(rpcUrl)`, as far as it can throw. -/
  createPublicClient : Environment → String → Except JsError Unit
  /-- web3.js `new PublicKey(value)`, as far as it can throw. -/
  newPublicKey : String → Except JsError Unit
  /-- viem `privateKeyToAccount(key).address`. -/
  privateKeyToAccount : Hex → Except JsError Hex

/-- What `getSharedSolana` yields, as far as addresses follow from it. -/
structure SolanaContext where
  programId : String
  rootPublicKey : Option String
  requester : String
deriving DecidableEq, Repr

/-- `resolveConfig`'s RPC URL for a network. -/
def Env.solanaRpcUrl (env : Env) : Environment → String
  | .dev => env.solRpcUrlDevnet
  | .testnet => env.solRpcUrlDevnet
  | .mainnet => env.solRpcUrlMainnet

/-- The variable `resolveConfig` asks for when the URL is missing. -/
def solanaRpcVariable : Environment → String
  | .mainnet => "SIG_SOL_RPC_URL_MAINNET"
  | .dev => "SIG_SOL_RPC_URL_DEV"
  | .testnet => "SIG_SOL_RPC_URL_DEV"

def Environment.name : Environment → String
  | .dev => "dev"
  | .testnet => "testnet"
  | .mainnet => "mainnet"

/-- `BidirectionalService.solana()`: `getSharedSolana` for the service's network. -/
def Env.solana (env : Env) (libs : Libraries) (environment : Environment) :
    Except JsError SolanaContext :=
  -- `resolveConfig` asks for the URL first, then for the key
  if env.solanaRpcUrl environment = "" then
    .error { message := "Solana RPC URL for " ++ environment.name ++
      " environment is missing. Please set " ++ solanaRpcVariable environment ++
      " in your environment." }
  else if env.solSk = "" then
    .error { message :=
      "Solana secret key is missing. Please set SIG_SOL_SK in your environment." }
  else
    match libs.publicKeyOf env.solSk with
    | .error e => .error e
    | .ok requester =>
      .ok { programId := libs.contractAddress environment
            rootPublicKey := env.solRootPublicKey
            requester }

end ContractPinger
