import Mathlib

/-!
# Shared vocabulary

The names every part of the service uses: the MPC networks, the transaction modes,
hex strings, and the errors that travel through a job's `await`s.
-/

namespace ContractPinger

/-- viem's `Hex`: a `0x`-prefixed string. -/
abbrev Hex := String

/-- `Date.now()` and every duration, in milliseconds. -/
abbrev Millis := Int

/-- The MPC networks (`BidirectionalEnvironment`). -/
inductive Environment
  | dev
  | testnet
  | mainnet
deriving DecidableEq, Repr

/-- `TX_MODES`. -/
inductive TxMode
  | ethSelfTransfer
  | erc20ZeroTransfer
deriving DecidableEq, Repr

/-- A JavaScript `Error` raised outside the service: an RPC call, signet.js, viem. -/
structure JsError where
  name : String := "Error"
  message : String
deriving DecidableEq, Repr

/-- `String(error)`. -/
def JsError.toString (e : JsError) : String := e.name ++ ": " ++ e.message

/-- The reason a `NoWorkerAvailableError` carries. -/
inductive NoWorkerReason
  | allBusy
  | allUnderfunded
deriving DecidableEq, Repr

/-- The message of a `NoWorkerAvailableError`. -/
def NoWorkerReason.message : NoWorkerReason → String
  | .allBusy =>
    "All derived addresses are mid-transaction or awaiting nonce reconciliation; retry shortly."
  | .allUnderfunded =>
    "No derived address holds enough gas. Fund them or run a top-up sweep."

/-- The errors `run()` can end with, by the classes its caller tells apart. -/
inductive JobError
  /-- `ShutdownError`, raised at a phase boundary. -/
  | shutdown
  /-- `NoWorkerAvailableError`, from the pool. -/
  | noWorkerAvailable (reason : NoWorkerReason)
  /-- `DerivationMismatchError`, from `assertDerivedSender`. -/
  | derivationMismatch (expected recovered : Hex)
  /-- Any other `Error`. -/
  | other (error : JsError)
deriving DecidableEq, Repr

/-- `error.message`. -/
def JobError.message : JobError → String
  | .shutdown => "Process is shutting down; job abandoned before it could proceed"
  | .noWorkerAvailable reason => reason.message
  | .derivationMismatch expected recovered =>
    "Signed transaction recovers to " ++ recovered ++ ", expected the derived address " ++
      expected ++ ". The MPC root key and the chain-signatures program are probably from " ++
      "different networks."
  | .other error => error.message

end ContractPinger
