import ContractPinger.Model.Env

/-!
# Building, signing and checking a transaction

`src/utils/bidirectionalTx.ts` and `src/utils/derivation.ts`. The RPC reads of
`buildTransaction` are awaited by its caller; `assembleTransaction` is what it makes of
their answers.
-/

namespace ContractPinger

def ethereumCaip2Id : String := "eip155:1"

def keyVersion : Nat := 1

/-- `withHexPrefix`. -/
def withHexPrefix (value : String) : Hex :=
  match value.toList with
  | '0' :: 'x' :: _ => value
  | _ => "0x" ++ value

/-- `value.replace(/^0x/, '')`. -/
def withoutHexPrefix (value : String) : String :=
  match value.toList with
  | '0' :: 'x' :: rest => String.ofList rest
  | _ => value

/-- `ETHEREUM_TARGETS[environment].chainId`. -/
def Environment.chainId : Environment → Nat
  | .dev => 11155111
  | .testnet => 11155111
  | .mainnet => 1

/-- `ETHEREUM_TARGETS[environment].erc20`. -/
def Environment.erc20 : Environment → Hex
  | .dev => "0x1c7D4B196Cb0C7B01d743Fbc6116a902379C7238"
  | .testnet => "0x1c7D4B196Cb0C7B01d743Fbc6116a902379C7238"
  | .mainnet => "0xA0b86991c6218b36c1d19D4a2e9Eb0cE3606eB48"

/-- `ETHEREUM_TARGETS[environment].rpcUrl()`. -/
def Env.ethereumRpcUrl (env : Env) : Environment → String
  | .dev => env.ethRpcUrlSepolia
  | .testnet => env.ethRpcUrlSepolia
  | .mainnet => env.ethRpcUrlMainnet

/-- Both modes resolve to a single Borsh-encoded `true`. -/
def expectedSerializedOutput : String := "0x01"

/-- `BuiltTransaction`, less the two schemas the MPC alone reads. -/
structure BuiltTransaction where
  unsigned : UnsignedTransaction
  /-- The exact bytes the MPC signs, and the payload the request id hashes. -/
  rlpEncoded : Hex
  nonce : Nat
  gasCostWei : Nat
deriving DecidableEq, Repr

/-- What `estimateFeesPerGas` answers. -/
structure Fees where
  maxFeePerGas : Nat
  maxPriorityFeePerGas : Nat
deriving DecidableEq, Repr

/-- `GAS_BUFFER_PERCENT`. -/
def gasBufferPercent : Nat := 20

/-- `buildTransaction`, from the answers to its reads. -/
def assembleTransaction (libs : Libraries) (environment : Environment) (mode : TxMode)
    (sender erc20Address : Hex) (nonce : Nat) (fees : Fees) (gasEstimate : Nat) :
    BuiltTransaction :=
  let isErc20 := mode == .erc20ZeroTransfer
  -- bigint division rounds down
  let gas := gasEstimate * (100 + gasBufferPercent) / 100
  let unsigned : UnsignedTransaction :=
    { chainId := environment.chainId
      nonce
      «to» := if isErc20 then erc20Address else sender
      gas
      maxFeePerGas := fees.maxFeePerGas
      maxPriorityFeePerGas := fees.maxPriorityFeePerGas
      data := if isErc20 then some (libs.encodeTransfer sender 0) else none }
  { unsigned
    rlpEncoded := libs.serializeTransaction unsigned
    nonce
    gasCostWei := gas * fees.maxFeePerGas }

/-- What `attachSignature` resolves to. -/
structure SignedTransaction where
  serialized : Hex
  recoveredFrom : Hex
deriving DecidableEq, Repr

/-- The MPC reports `v` as 0/1 or as 27/28; signet.js wants the latter. -/
def normalizeSignature (signature : RSVSignature) : RSVSignature :=
  { r := withoutHexPrefix signature.r
    s := withoutHexPrefix signature.s
    v := if signature.v < 27 then signature.v + 27 else signature.v }

/-- The address the MPC's signature recovers to over the bytes of `unsigned`. -/
def recoverSigner (libs : Libraries) (unsigned : UnsignedTransaction) (rsv : RSVSignature) :
    Except JsError Hex :=
  libs.recoverAddress (libs.keccak256 (libs.serializeTransaction unsigned))
    (withHexPrefix rsv.r) (withHexPrefix rsv.s) (rsv.v - 27)

/-- `attachSignature`: assembly is signet.js's, recovery is ours. -/
def attachSignature (libs : Libraries) (unsigned : UnsignedTransaction)
    (signature : RSVSignature) : Except JsError SignedTransaction := do
  let rsv := normalizeSignature signature
  let serialized ← libs.finalizeTransactionSigning unsigned rsv
  let recoveredFrom ← recoverSigner libs unsigned rsv
  return { serialized, recoveredFrom }

/-- `assertDerivedSender`: both addresses in checksummed form, or the error thrown. -/
def assertDerivedSender (libs : Libraries) (expected recovered : Hex) :
    Except JobError Unit :=
  match libs.getAddress expected, libs.getAddress recovered with
  | .ok e, .ok r => if e = r then .ok () else .error (.derivationMismatch e r)
  | .error err, _ => .error (.other err)
  | .ok _, .error err => .error (.other err)

/-- `DerivedWorker`. -/
structure DerivedWorker where
  path : String
  address : Hex
deriving DecidableEq, Repr

/-- One round of the loop of `deriveWorkerAddresses`. -/
def deriveWorker (libs : Libraries) (solana : SolanaContext) (path : String) : DerivedWorker :=
  { path
    address := libs.deriveAddress solana.programId solana.rootPublicKey solana.requester path
      keyVersion }

/-- `deriveWorkerAddresses`, when no round of it throws. -/
def deriveWorkerAddresses (libs : Libraries) (solana : SolanaContext) (paths : List String) :
    List DerivedWorker :=
  paths.map (deriveWorker libs solana)

end ContractPinger
