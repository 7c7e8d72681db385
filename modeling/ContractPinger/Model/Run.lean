import ContractPinger.Model.BidirectionalTx
import ContractPinger.Model.JobStore
import ContractPinger.Model.WorkerPool

/-!
# One job, from `await` to `await`

`BidirectionalService.run` of `src/handlers/signBidirectional.ts`, as a coroutine. A
`Frame` is a suspended activation: the locals that outlive an `await` and the `await` it
is suspended at. `Frame.resume` is the code between two `await`s: from the answer the
first one got, the frame at the next one and the calls made on the shared objects in
between, in order.
-/

namespace ContractPinger

/-- What one `BidirectionalService` is built from. -/
structure Setup where
  env : Env
  libs : Libraries
  environment : Environment

/-- The `await`s of `run()`. -/
inductive Pc
  /-- `ensureAddresses()`, on the promise of a derivation. -/
  | ensuringAddresses (derivation : Nat)
  /-- `reconcileQuarantined()`: the counts of the head are being read; with none left the
      call has returned. -/
  | reconciling (rest : List String)
  /-- `refreshUnderfunded()`, likewise. -/
  | refreshingUnderfunded (rest : List String)
  /-- `acquireWithin(leaseWaitMs)`. -/
  | leasing
  /-- `getBalance` of the preflight. -/
  | readingBalance
  /-- `buildTransaction`: the nonce and the fees. -/
  | readingNonce (balance : Nat)
  /-- `buildTransaction`: `estimateGas`. -/
  | estimatingGas (balance nonce : Nat) (fees : Fees)
  /-- `buildSignBidirectionalInstruction`. -/
  | buildingInstruction (built : BuiltTransaction)
  /-- `provider.sendAndConfirm`. -/
  | sendingSolana (built : BuiltTransaction)
  /-- `signaturePromise`. -/
  | awaitingSignature (built : BuiltTransaction)
  /-- `attachSignature`. -/
  | attachingSignature (built : BuiltTransaction) (rsv : RSVSignature)
  /-- `sendRawTransaction`. -/
  | broadcasting (built : BuiltTransaction) (serialized : Hex)
  /-- `waitForTransactionReceipt`. -/
  | confirming (built : BuiltTransaction) (ethTxHash : Hex)
  /-- `respondPromise`. -/
  | responding
  /-- `run()` has rejected; the `catch` of `start` has not run yet. -/
  | rejected (error : JobError)
  | ended
deriving DecidableEq, Repr

/-- The locals of `run()`, the state of its `AbortController` and of its timer. -/
structure Frame where
  mode : TxMode
  requester : String := ""
  worker : Option String := none
  leaseReleased : Bool := false
  /-- `watches.signal.reason`, once aborted. -/
  aborted : Option JsError := none
  /-- `watches` is in `activeJobs`. -/
  listed : Bool := false
  /-- `respondDeadline` is set and neither fired nor cleared. -/
  respondDeadline : Bool := false
  pc : Pc
deriving DecidableEq, Repr

/-- `respond.serializedOutput`: a string or bytes. -/
inductive SerializedOutput
  | text (value : String)
  | bytes (value : List UInt8)
deriving DecidableEq, Repr

/-- The answers an `await` can get. `resume` is the return of a call whose result is
    found in the service. -/
inductive Reply
  | resume
  | counts (latest pending : Nat)
  | balance (wei : Nat)
  | nonceAndFees (nonce : Nat) (fees : Fees)
  | gas (estimate : Nat)
  | instruction
  | solanaTx (signature : String)
  | rsv (signature : RSVSignature)
  | txHash (hash : Hex)
  | receipt (success : Bool)
  | respond (output : SerializedOutput)
  | throw (error : JsError)
deriving DecidableEq, Repr

/-- The external operations a job starts that cannot be taken back. -/
inductive Operation
  | buildTransaction
  | sendAndConfirm
  | sendRawTransaction (serialized : Hex)
deriving DecidableEq, Repr

/-- The calls `run()` and `GET /workers` make on the shared objects. -/
inductive Effect
  | acquireWithin (job : Nat)
  | setBalance (path : String) (balanceWei minBalanceWei : Nat)
  | quarantine (path : String) (nonce : Nat)
  | reconcile (path : String) (hasOutstanding : Bool)
  | release (path : String)
  | update (job : Nat) (patch : JobPatch)
  | fail (job : Nat) (reason : FailureReason) (error : JobError)
  | began (job : Nat) (op : Operation)
deriving DecidableEq, Repr

/-- What a call does to the pool. -/
def Effect.onPool (now : Millis) (pool : WorkerPool) : Effect → WorkerPool
  | .acquireWithin job => pool.acquireWithin job now
  | .setBalance path balanceWei minBalanceWei => pool.setBalance path balanceWei minBalanceWei
  | .quarantine path nonce => pool.quarantine path nonce
  | .reconcile path hasOutstanding => pool.reconcile path hasOutstanding
  | .release path => pool.release path now
  | .update _ _ => pool
  | .fail _ _ _ => pool
  | .began _ _ => pool

/-- What a call does to the job store. -/
def Effect.onJobs (now : Millis) (jobs : JobStore) : Effect → JobStore
  | .update job patch => jobs.update job patch
  | .fail job reason error => jobs.fail job reason error now
  | _ => jobs

def hexDigit (n : Nat) : Char := "0123456789abcdef".toList.getD n '0'

/-- `toHexString`. -/
def toHexString : SerializedOutput → String
  | .text value => withHexPrefix value
  | .bytes value => String.ofList ('0' :: 'x' ::
      value.flatMap fun b => [hexDigit (b.toNat / 16), hexDigit (b.toNat % 16)])

/-- `/insufficient funds/i.test(text)`. -/
def mentionsInsufficientFunds (text : String) : Bool :=
  let needle := "insufficient funds".toList
  (text.toList.map Char.toLower).tails.any fun suffix => needle.isPrefixOf suffix

/-- `0x`, the address of a worker nobody has derived yet. -/
def noAddress : Hex := "0x"

/-- The address of a leased worker. -/
def WorkerPool.address (pool : WorkerPool) (path : String) : Hex :=
  ((pool.worker? path).map Worker.address).getD noAddress

/-- Where the loop of `refreshUnderfunded` stops next: the first worker of the rest that is
    marked and has an address. -/
def WorkerPool.skipFunded (pool : WorkerPool) (rest : List String) : List String :=
  rest.dropWhile fun path =>
    match pool.worker? path with
    | some w => !w.underfunded || w.address == noAddress
    | none => true

/-- How `start` classifies what `run()` rejects with. -/
def JobError.failureReason : JobError → FailureReason
  | .shutdown => .shutdown
  | .noWorkerAvailable .allUnderfunded => .allWorkersUnderfunded
  | .noWorkerAvailable .allBusy => .allWorkersBusy
  | .derivationMismatch _ _ => .internalError
  | .other _ => .internalError

/-- `watches.abort()` without a reason. -/
def abortError : JsError := { name := "AbortError", message := "This operation was aborted" }

namespace Frame

/-- `watches.abort(reason)`: the first reason stays. -/
def abort (f : Frame) (reason : JsError) : Frame :=
  { f with aborted := f.aborted <|> some reason }

/-- `releaseLease()`. -/
def releaseLease (f : Frame) : Frame × List Effect :=
  match f.worker, f.leaseReleased with
  | some path, false => ({ f with leaseReleased := true }, [.release path])
  | _, _ => (f, [])

/-- The `finally` block of `run()`, on the way to `pc`. -/
def finish (f : Frame) (pc : Pc) (effects : List Effect) : Frame × List Effect :=
  ({ f.releaseLease.1.abort abortError with listed := false, pc },
    effects ++ f.releaseLease.2)

/-- `return`, after the given calls. -/
def returns (f : Frame) (effects : List Effect) : Frame × List Effect :=
  f.finish .ended effects

/-- `throw`, after the given calls. -/
def throws (f : Frame) (error : JobError) (effects : List Effect) : Frame × List Effect :=
  f.finish (.rejected error) effects

/-- Suspend at the next `await`, after the given calls. -/
def await (f : Frame) (pc : Pc) (effects : List Effect) : Frame × List Effect :=
  ({ f with pc }, effects)

/-- `abortIfShuttingDown()`, then go on to the next `await`. -/
def proceed (f : Frame) (pc : Pc) (before after : List Effect) : Frame × List Effect :=
  if f.aborted.isSome then f.throws .shutdown before else f.await pc (before ++ after)

/-- The preflight found the leased address too poor for `threshold`. -/
def underfunded (f : Frame) (job : Nat) (path : String) (balance threshold : Nat)
    (error : JobError) : Frame × List Effect :=
  f.returns [.setBalance path balance threshold, .fail job .preflightUnderfunded error]

end Frame

/-- What `run()` reads of the service when it resumes. -/
structure RunView where
  pool : WorkerPool
  /-- The state of the promise of a derivation: none while it is pending. -/
  derived : Nat → Option (Except JsError Unit)
  now : Millis

namespace Frame

/-- The code from `leasing` on, for the leased `path`. -/
def resumeLeased (s : Setup) (view : RunView) (job : Nat) (path : String) (f : Frame) :
    Pc → Reply → Option (Frame × List Effect)
  -- Steps 1-2: derive and preflight
  | .readingBalance, .balance balance =>
    if balance < s.env.bidirectional.minBalanceWei then
      some (f.underfunded job path balance s.env.bidirectional.minBalanceWei
        (.other { message := view.pool.address path ++ " holds " ++ toString balance ++
          " wei, below the " ++ toString s.env.bidirectional.minBalanceWei ++ " minimum" }))
    else some (f.proceed (.readingNonce balance) [] [.began job .buildTransaction])
  | .readingBalance, .throw e => some (f.throws (.other e) [])
  | .readingNonce balance, .nonceAndFees nonce fees =>
    some (f.await (.estimatingGas balance nonce fees) [])
  | .readingNonce balance, .throw e => some (buildFailed balance e)
  | .estimatingGas balance nonce fees, .gas estimate =>
    let built := assembleTransaction s.libs s.environment f.mode (view.pool.address path)
      (s.env.bidirectional.erc20Address.getD s.environment.erc20) nonce fees estimate
    if balance < built.gasCostWei then
      some (f.underfunded job path balance built.gasCostWei
        (.other { message := view.pool.address path ++ " holds " ++ toString balance ++
          " wei, needs " ++ toString built.gasCostWei ++ " for gas" }))
    else
      -- Steps 3-4: request id
      let requestId := s.libs.getRequestIdBidirectional
        { sender := f.requester
          payload := built.rlpEncoded
          caip2Id := ethereumCaip2Id
          keyVersion := keyVersion
          path
          algo := "ECDSA"
          dest := "ethereum"
          params := "" }
      some (f.proceed (.buildingInstruction built)
        [.update job { requestId := some requestId, nonce := some built.nonce }] [])
  | .estimatingGas balance _ _, .throw e => some (buildFailed balance e)
  -- Step 5: send sign_bidirectional
  | .buildingInstruction built, .instruction =>
    some (f.await (.sendingSolana built) [.began job .sendAndConfirm])
  | .buildingInstruction _, .throw e => some (f.throws (.other e) [])
  | .sendingSolana built, .solanaTx signature =>
    -- Steps 6 and 9: both waits are registered between these two updates
    some (f.await (.awaitingSignature built)
      [.update job
        { state := some .signSent
          solanaTx := some signature
          timings := { signSentAt := some view.now } },
       .update job { state := some .awaitingSignature }])
  | .sendingSolana _, .throw e => some (f.throws (.other e) [])
  | .awaitingSignature built, .rsv signature =>
    some (f.await (.attachingSignature built signature)
      [.update job { timings := { signatureAt := some view.now } }])
  -- whatever ended the wait, the record says `signature_timeout`
  | .awaitingSignature _, .throw e =>
    some (f.returns [.fail job .signatureTimeout (.other e)])
  -- Step 7: verify derivation
  | .attachingSignature built signature, .resume =>
    match attachSignature s.libs built.unsigned signature with
    | .error e => some (f.throws (.other e) [])
    | .ok signed =>
      match assertDerivedSender s.libs (view.pool.address path) signed.recoveredFrom with
      | .error e => some (f.returns [.fail job .derivationMismatch e])
      | .ok () =>
        some (f.await (.broadcasting built signed.serialized)
          [.update job { state := some .verified },
           .began job (.sendRawTransaction signed.serialized)])
  -- Step 8: broadcast and confirm
  | .broadcasting built _, .txHash hash =>
    some (f.await (.confirming built hash)
      [.update job
        { state := some .broadcast
          ethTxHash := some hash
          timings := { broadcastAt := some view.now } }])
  | .broadcasting built _, .throw e =>
    some (f.returns [.quarantine path built.nonce, .fail job .broadcastFailed (.other e)])
  | .confirming _ hash, .receipt success =>
    if success then
      -- the nonce is spent: the lease ends here, the respond budget starts here
      let (released, effects) := f.releaseLease
      some ({ released with respondDeadline := true, pc := .responding },
        .update job
          { state := some .confirmed
            timings := { confirmedAt := some view.now } } :: effects)
    else
      some (f.returns [.fail job .transactionReverted
        (.other { message := "Transaction " ++ hash ++ " reverted" })])
  | .confirming built _, .throw e =>
    some (f.returns [.quarantine path built.nonce, .fail job .confirmationTimeout (.other e)])
  -- Steps 9-10: respond and verify
  | .responding, .respond output =>
    let f := { f with respondDeadline := false }
    let serializedOutput := toHexString output
    let stamp := Effect.update job
      { serializedOutput := some serializedOutput
        timings := { respondedAt := some view.now } }
    if serializedOutput ≠ expectedSerializedOutput then
      some (f.returns [stamp, .fail job .respondMismatch
        (.other { message := "Expected " ++ expectedSerializedOutput ++ ", got " ++
          serializedOutput })])
    else
      some (f.returns [stamp, .update job
        { state := some .responded
          timings := { finishedAt := some view.now } }])
  -- the wait ended without an event: its deadline, a shutdown or its own failure
  | .responding, .throw e =>
    some ({ f with respondDeadline := false }.returns
      [.fail job .respondTimeout (.other e)])
  | _, _ => none
where
  /-- The `catch` around `buildTransaction`. -/
  buildFailed (balance : Nat) (e : JsError) : Frame × List Effect :=
    if mentionsInsufficientFunds e.toString then
      f.underfunded job path balance (balance + 1) (.other e)
    else f.throws (.other e) []

/-- The code from one `await` of `run()` to the next. -/
def resume (s : Setup) (view : RunView) (job : Nat) (f : Frame) (reply : Reply) :
    Option (Frame × List Effect) :=
  match f.pc, reply with
  | .ensuringAddresses derivation, .resume =>
    match view.derived derivation with
    | none => none
    | some (.error e) => some (f.throws (.other e) [])
    | some (.ok ()) =>
      some (f.await (.reconciling (view.pool.quarantined.map Worker.path)) [])
  | .reconciling (path :: rest), .counts latest pending =>
    some (f.await (.reconciling rest) [.reconcile path (decide (latest < pending))])
  | .reconciling (_ :: _), .throw e => some (f.throws (.other e) [])
  | .reconciling [], .resume =>
    some (f.await (.refreshingUnderfunded (view.pool.skipFunded view.pool.paths)) [])
  | .refreshingUnderfunded (path :: rest), .balance balance =>
    let refreshed := view.pool.setBalance path balance s.env.bidirectional.minBalanceWei
    some (f.await (.refreshingUnderfunded (refreshed.skipFunded rest))
      [.setBalance path balance s.env.bidirectional.minBalanceWei])
  | .refreshingUnderfunded (_ :: _), .throw e => some (f.throws (.other e) [])
  | .refreshingUnderfunded [], .resume =>
    some (f.proceed .leasing [] [.acquireWithin job])
  | .leasing, .resume =>
    match view.pool.settlement job with
    | none => none
    | some (.rejected e) => some (f.throws e [])
    | some (.resolved path) =>
      some ({ f with worker := some path }.await .readingBalance
        [.update job
          { path := some path
            derivedAddress := some (view.pool.address path)
            timings := { leaseAcquiredAt := some view.now } }])
  | .rejected e, .resume => some ({ f with pc := .ended }, [.fail job e.failureReason e])
  | pc, reply =>
    match f.worker with
    | some path => f.resumeLeased s view job path pc reply
    | none => none

end Frame

end ContractPinger
