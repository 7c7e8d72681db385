import ContractPinger.ForStd.Decimals
import ContractPinger.ForStd.Form
import ContractPinger.Model.Server

/-!
# The environment schema

`src/utils/env.ts`: the variables, the check of each, and the configuration they resolve to.
What the checks of zod do is a parameter; the patterns, bounds, defaults and messages that the
schema gives them are written out. `scripts/fund-config.ts` prints four of the figures.
-/

namespace ContractPinger

/-! ## The schema -/

/-- The checks that are zod's own, each with the issues it refuses a text for. -/
structure Zod where
  /-- `z.coerce.number().int().min(min)`, with `.max(max)` if there is one. -/
  integer : Nat → Option Nat → String → Except (Refusal String) Nat
  /-- `z.string().url()`. -/
  url : String → Except (Refusal String) String
  /-- The message of `z.enum(options)` for a text that is none of them. -/
  invalidOption : List String → String → String

/-- How the check of a variable is built. -/
inductive Check
  /-- `integer(fallback, min)`; `PORT` has a maximum too. -/
  | integer (fallback min : Nat) (max : Option Nat)
  /-- `z.coerce.number().int().min(min).optional()`. -/
  | optionalInteger (min : Nat)
  /-- `z.string().default(fallback)`. -/
  | string (fallback : String)
  | optionalString
  /-- `z.string().url().optional()`. -/
  | optionalUrl
  /-- `z.string().regex(pattern, message).optional()`. -/
  | optionalMatching (pattern : String → Bool) (message : String)
  | wei (fallback : String)
  | eth (fallback : String)
  | boolish (fallback : Bool)
  /-- `z.enum(TX_MODES).default(fallback)`. -/
  | txMode (fallback : TxMode)
  /-- `z.enum(['dev', 'testnet', 'mainnet']).default(fallback)`. -/
  | network (fallback : Environment)

namespace Check

/-- What a variable of this check resolves to. -/
@[reducible] def Value : Check → Type
  | integer _ _ _ => Nat
  | optionalInteger _ => Option Nat
  | string _ => String
  | optionalString => Option String
  | optionalUrl => Option String
  | optionalMatching _ _ => Option String
  | wei _ => Nat
  | eth _ => String
  | boolish _ => Bool
  | txMode _ => TxMode
  | network _ => Environment

/-- A refusal for one reason. -/
def refuse {α : Type} (message : String) : Except (Refusal String) α :=
  .error ⟨[message], List.cons_ne_nil _ _⟩

/-- `z.enum` of the names of `options`. -/
def oneOf {α : Type} (zod : Zod) (options : List (String × α)) (text : String) :
    Except (Refusal String) α :=
  match options.lookup text with
  | some value => .ok value
  | none => refuse (zod.invalidOption (options.map Prod.fst) text)

/-- `/^\d+$/`. -/
def isWhole (v : String) : Bool := v.toList ≠ [] && v.toList.all Char.isDigit

/-- `/^\d+(\.\d+)?$/`. -/
def isDecimal (v : String) : Bool := (Decimals.parse v.toList).isSome

/-- A check at work on a variable that is set, or not. -/
def run (zod : Zod) : (check : Check) → Option String → Except (Refusal String) check.Value
  | integer fallback _ _, none => .ok fallback
  | integer _ min max, some text => zod.integer min max text
  | optionalInteger _, none => .ok none
  | optionalInteger min, some text => (zod.integer min none text).map some
  | string fallback, text => .ok (text.getD fallback)
  | optionalString, text => .ok text
  | optionalUrl, none => .ok none
  | optionalUrl, some text => (zod.url text).map some
  | optionalMatching _ _, none => .ok none
  | optionalMatching pattern message, some text =>
    if pattern text then .ok (some text) else refuse message
  | wei fallback, text =>
    let v := text.getD fallback
    -- `BigInt` of a row of digits
    if isWhole v then .ok (Decimals.number v.toList) else refuse "must be a whole number of wei"
  | eth fallback, text =>
    let v := text.getD fallback
    if isDecimal v then .ok v else refuse "must be a decimal number of ETH"
  | boolish fallback, none => .ok fallback
  | boolish _, some text => oneOf zod [("true", true), ("false", false)] text
  | txMode fallback, none => .ok fallback
  | txMode _, some text => oneOf zod (txModes.map fun mode => (mode.name, mode)) text
  | network fallback, none => .ok fallback
  | network _, some text =>
    oneOf zod (bidirectionalEnvironments.map fun e => (e.name, e)) text

end Check

/-- The variables of `schema`. -/
inductive Variable
  | port
  | nodeEnv
  | apiSecret
  | ethRpcUrlSepolia
  | ethRpcUrlMainnet
  | solRpcUrlDev
  | solRpcUrlMainnet
  | solSk
  | solRootPublicKey
  | paths
  | pathPrefix
  | maxActiveJobs
  | maxJobs
  | retainedJobs
  | maxRequestsPerMin
  | leaseWaitMs
  | txMode
  | erc20Address
  | waitsForEthFinality
  | signatureTimeoutMs
  | respondTimeoutMs
  | ethConfirmTimeoutMs
  | confirmations
  | minBalanceWei
  | fundTopUpEth
  | fundMaxPerAddressEth
  | fundMaxPerRunEth
  | fundReserveEth
  | gasPerRunEth
  | gasMargin
  | fundingSk
  | requesterPubkey
  | serviceUrl
  | e2eEnv
deriving DecidableEq, Repr

namespace Variable

/-- The keys of `schema`, in its order. -/
def all : List Variable :=
  [port, nodeEnv, apiSecret, ethRpcUrlSepolia, ethRpcUrlMainnet, solRpcUrlDev, solRpcUrlMainnet,
    solSk, solRootPublicKey, paths, pathPrefix, maxActiveJobs, maxJobs, retainedJobs,
    maxRequestsPerMin, leaseWaitMs, txMode, erc20Address, waitsForEthFinality,
    signatureTimeoutMs, respondTimeoutMs, ethConfirmTimeoutMs, confirmations, minBalanceWei,
    fundTopUpEth, fundMaxPerAddressEth, fundMaxPerRunEth, fundReserveEth, gasPerRunEth,
    gasMargin, fundingSk, requesterPubkey, serviceUrl, e2eEnv]

/-- The schema has every variable. -/
theorem mem_all (v : Variable) : v ∈ all := by
  cases v <;> decide

/-- The variable of the process environment. -/
def name : Variable → String
  | port => "PORT"
  | nodeEnv => "NODE_ENV"
  | apiSecret => "API_SECRET"
  | ethRpcUrlSepolia => "SIG_ETH_RPC_URL_SEPOLIA"
  | ethRpcUrlMainnet => "SIG_ETH_RPC_URL_MAINNET"
  | solRpcUrlDev => "SIG_SOL_RPC_URL_DEV"
  | solRpcUrlMainnet => "SIG_SOL_RPC_URL_MAINNET"
  | solSk => "SIG_SOL_SK"
  | solRootPublicKey => "SIG_SOL_ROOT_PUBLIC_KEY"
  | paths => "SIG_BIDIRECTIONAL_PATHS"
  | pathPrefix => "SIG_BIDIRECTIONAL_PATH_PREFIX"
  | maxActiveJobs => "SIG_BIDIRECTIONAL_MAX_ACTIVE_JOBS"
  | maxJobs => "SIG_BIDIRECTIONAL_MAX_JOBS"
  | retainedJobs => "SIG_BIDIRECTIONAL_RETAINED_JOBS"
  | maxRequestsPerMin => "SIG_BIDIRECTIONAL_MAX_REQUESTS_PER_MIN"
  | leaseWaitMs => "SIG_BIDIRECTIONAL_LEASE_WAIT_MS"
  | txMode => "SIG_BIDIRECTIONAL_TX_MODE"
  | erc20Address => "SIG_BIDIRECTIONAL_ERC20_ADDRESS"
  | waitsForEthFinality => "SIG_BIDIRECTIONAL_WAITS_FOR_ETH_FINALITY"
  | signatureTimeoutMs => "SIG_BIDIRECTIONAL_SIGNATURE_TIMEOUT_MS"
  | respondTimeoutMs => "SIG_BIDIRECTIONAL_RESPOND_TIMEOUT_MS"
  | ethConfirmTimeoutMs => "SIG_BIDIRECTIONAL_ETH_CONFIRM_TIMEOUT_MS"
  | confirmations => "SIG_BIDIRECTIONAL_CONFIRMATIONS"
  | minBalanceWei => "SIG_BIDIRECTIONAL_MIN_BALANCE_WEI"
  | fundTopUpEth => "SIG_BIDIRECTIONAL_FUND_TOPUP_ETH"
  | fundMaxPerAddressEth => "SIG_BIDIRECTIONAL_FUND_MAX_PER_ADDRESS_ETH"
  | fundMaxPerRunEth => "SIG_BIDIRECTIONAL_FUND_MAX_PER_RUN_ETH"
  | fundReserveEth => "SIG_BIDIRECTIONAL_FUND_RESERVE_ETH"
  | gasPerRunEth => "SIG_BIDIRECTIONAL_GAS_PER_RUN_ETH"
  | gasMargin => "SIG_BIDIRECTIONAL_GAS_MARGIN"
  | fundingSk => "SIG_BIDIRECTIONAL_FUNDING_SK"
  | requesterPubkey => "SIG_BIDIRECTIONAL_REQUESTER_PUBKEY"
  | serviceUrl => "SIG_BIDIRECTIONAL_SERVICE_URL"
  | e2eEnv => "SIG_BIDIRECTIONAL_E2E_ENV"

/-- No two variables have one name. -/
theorem name_injective : Function.Injective name := by
  have hnodup : (all.map name).Nodup := by decide +kernel
  exact fun v w => List.inj_on_of_nodup_map hnodup (mem_all v) (mem_all w)

/-- `start`, and then `digits` hexadecimal digits. -/
def isHexAfter (start : String) (digits : Nat) (v : String) : Bool :=
  let rest := v.toList.drop start.length
  v.toList.take start.length = start.toList && rest.length = digits &&
    rest.all fun c => c.isDigit || ('a' ≤ c && c ≤ 'f') || ('A' ≤ c && c ≤ 'F')

/-- `schema`. -/
@[reducible] def check : Variable → Check
  | port => .integer 3001 1 (some 65535)
  | nodeEnv => .string "development"
  | apiSecret => .optionalString
  | ethRpcUrlSepolia => .optionalUrl
  | ethRpcUrlMainnet => .optionalUrl
  | solRpcUrlDev => .optionalUrl
  | solRpcUrlMainnet => .optionalUrl
  | solSk => .optionalString
  | solRootPublicKey =>
    -- `/^04[0-9a-fA-F]{128}$/`
    .optionalMatching (isHexAfter "04" 128)
      "must be an uncompressed SEC1 public key: 04 followed by 128 hex characters"
  | paths => .integer 10 0 none
  | pathPrefix => .string "load"
  | maxActiveJobs => .integer 20 0 none
  | maxJobs => .integer 400 0 none
  | retainedJobs => .integer 1000 1 none
  | maxRequestsPerMin => .integer 10 0 none
  | leaseWaitMs => .integer 180000 1 none
  | txMode => .txMode .ethSelfTransfer
  | erc20Address =>
    -- `/^0x[0-9a-fA-F]{40}$/`
    .optionalMatching (isHexAfter "0x" 40) "must be a 20-byte hex address"
  | waitsForEthFinality => .boolish true
  | signatureTimeoutMs => .integer 300000 1 none
  | respondTimeoutMs => .optionalInteger 1
  | ethConfirmTimeoutMs => .integer 600000 1 none
  | confirmations => .integer 2 1 none
  | minBalanceWei => .wei "2000000000000000"
  | fundTopUpEth => .eth "0.009"
  | fundMaxPerAddressEth => .eth "0.02"
  | fundMaxPerRunEth => .eth "0.2"
  | fundReserveEth => .eth "0.005"
  | gasPerRunEth => .eth "0.0000234"
  | gasMargin => .integer 2 1 none
  | fundingSk => .optionalString
  | requesterPubkey => .optionalString
  | serviceUrl => .optionalUrl
  | e2eEnv => .network .testnet

end Variable

/-! ## Parsing -/

/-- `process.env`: a name has one value. -/
structure ProcessEnv where
  entries : List (String × String)
  nodup : (entries.map Prod.fst).Nodup

namespace ProcessEnv

/-- `withoutEmptyValues`. -/
def withoutEmptyValues (env : ProcessEnv) : ProcessEnv where
  entries := env.entries.filter fun entry => entry.2 ≠ ""
  nodup := env.nodup.sublist (List.filter_sublist.map Prod.fst)

/-- A variable, as the schema sees it. -/
def setting (env : ProcessEnv) (v : Variable) : Option String :=
  env.withoutEmptyValues.entries.lookup v.name

end ProcessEnv

/-- `z.infer<typeof schema>`. -/
abbrev Parsed := (v : Variable) → v.check.Value

/-- `z.object` of the schema: the issues stand in the order of its keys. -/
def schema (zod : Zod) : Form Variable (Option String) String fun v => v.check.Value where
  fields := Variable.all
  complete := Variable.mem_all
  check v := v.check.run zod

/-- `parse`: the configuration, or the message of the error that ends the process. -/
def parse (zod : Zod) (env : ProcessEnv) : Except String Parsed :=
  match (schema zod).read env.setting with
  | .ok parsed => .ok parsed
  | .error issues =>
    .error ("Invalid environment configuration:\n" ++
      String.intercalate "\n" (issues.map fun i => "  - " ++ i.1.name ++ ": " ++ i.2))

/-! ## The configuration -/

/-- `RESPOND_TIMEOUT_FINALITY_MS`. -/
def respondTimeoutFinalityMs : Nat := 2100000

/-- `RESPOND_TIMEOUT_INCLUSION_MS`. -/
def respondTimeoutInclusionMs : Nat := 300000

namespace Parsed

/-- `respondTimeoutMs`. -/
def respondTimeout (parsed : Parsed) : Nat :=
  (parsed .respondTimeoutMs).getD
    (if parsed .waitsForEthFinality then respondTimeoutFinalityMs else respondTimeoutInclusionMs)

/-- `env`. Its amounts of ETH are texts, which the funding script passes to `parseEther`. -/
def env (parseEther : String → Except JsError Nat) (parsed : Parsed) : Except JsError Env := do
  let topUp ← parseEther (parsed .fundTopUpEth)
  let maxPerAddress ← parseEther (parsed .fundMaxPerAddressEth)
  let maxPerRun ← parseEther (parsed .fundMaxPerRunEth)
  let reserve ← parseEther (parsed .fundReserveEth)
  return {
    apiSecret := parsed .apiSecret
    ethRpcUrlSepolia := (parsed .ethRpcUrlSepolia).getD ""
    ethRpcUrlMainnet := (parsed .ethRpcUrlMainnet).getD ""
    solRpcUrlDevnet := (parsed .solRpcUrlDev).getD ""
    solRpcUrlMainnet := (parsed .solRpcUrlMainnet).getD ""
    solSk := (parsed .solSk).getD ""
    solRootPublicKey := parsed .solRootPublicKey
    bidirectional := {
      paths := parsed .paths
      pathPrefix := parsed .pathPrefix
      maxActiveJobs := parsed .maxActiveJobs
      maxJobs := parsed .maxJobs
      retainedJobs := parsed .retainedJobs
      maxRequestsPerMinute := parsed .maxRequestsPerMin
      txMode := parsed .txMode
      erc20Address := parsed .erc20Address
      minBalanceWei := parsed .minBalanceWei
      signatureTimeoutMs := parsed .signatureTimeoutMs
      respondTimeoutMs := parsed.respondTimeout
      ethConfirmTimeoutMs := parsed .ethConfirmTimeoutMs }
    funding := {
      key := parsed .fundingSk
      requesterPubkey := parsed .requesterPubkey
      serviceUrl := parsed .serviceUrl
      topUp, maxPerAddress, maxPerRun, reserve } }

/-- The `lines` of `scripts/fund-config.ts`. -/
def fundConfig (parsed : Parsed) : List (String × String) :=
  [("min_balance_wei", toString (parsed .minBalanceWei : Nat)),
    ("topup_eth", parsed .fundTopUpEth),
    ("gas_per_run_eth", parsed .gasPerRunEth),
    ("gas_margin", toString (parsed .gasMargin : Nat))]

end Parsed

end ContractPinger
