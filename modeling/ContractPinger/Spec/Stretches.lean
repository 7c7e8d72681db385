import ContractPinger.Model.World

/-!
# The stretches of code between two `await`s

`Frame.resume` goes from one `await` of `run()` to the next. This file names the ways it can go:
what the `await` was answered, which branch that led to, and the frame and the calls it left.
Proofs about one resumption take it apart by these names. A request for `GET /workers` and a
derivation of the addresses have such names as well.

## Key results

- `resume_stretch`: the ways on up to the lease, and that `resumeLeased` has the others
- `resumeLeased_stretch`: the ways on from an `await` after the lease
- `resume_eq_some_iff`: these are the ways on, and all of them
- `resumeRequest_stretch`, `resumeDerivation_stretch`: the same of the other two
-/

namespace ContractPinger.Frame

/-- The transaction that the answers of `buildTransaction` are assembled to. -/
def assembled (s : Setup) (view : RunView) (path : String) (f : Frame) (nonce : Nat) (fees : Fees)
    (estimate : Nat) : BuiltTransaction :=
  assembleTransaction s.libs s.environment f.mode (view.pool.address path)
    (s.env.bidirectional.erc20Address.getD s.environment.erc20) nonce fees estimate

/-- The request id of a transaction. -/
def requestIdOf (s : Setup) (path : String) (f : Frame) (built : BuiltTransaction) : String :=
  s.libs.getRequestIdBidirectional
    { sender := f.requester
      payload := built.rlpEncoded
      caip2Id := ethereumCaip2Id
      keyVersion := keyVersion
      path
      algo := "ECDSA"
      dest := "ethereum"
      params := "" }

/-- From an `await` after the lease of `path` to the next. -/
inductive LeasedStretch (s : Setup) (view : RunView) (job : Nat) (path : String) (f : Frame) :
    Pc → Reply → Frame × List Effect → Prop
  /-- The address holds less than the minimum. -/
  | poor (balance : Nat) (short : balance < s.env.bidirectional.minBalanceWei) :
      LeasedStretch s view job path f .readingBalance (.balance balance)
        (f.underfunded job path balance s.env.bidirectional.minBalanceWei
          (.other { message := view.pool.address path ++ " holds " ++ toString balance ++
            " wei, below the " ++ toString s.env.bidirectional.minBalanceWei ++ " minimum" }))
  | funded (balance : Nat) (enough : ¬ balance < s.env.bidirectional.minBalanceWei) :
      LeasedStretch s view job path f .readingBalance (.balance balance)
        (f.proceed (.readingNonce balance) [] [.began job .buildTransaction])
  | balanceFailed (e : JsError) :
      LeasedStretch s view job path f .readingBalance (.throw e) (f.throws (.other e) [])
  | nonceRead (balance nonce : Nat) (fees : Fees) :
      LeasedStretch s view job path f (.readingNonce balance) (.nonceAndFees nonce fees)
        (f.await (.estimatingGas balance nonce fees) [])
  | nonceFailed (balance : Nat) (e : JsError) :
      LeasedStretch s view job path f (.readingNonce balance) (.throw e)
        (resumeLeased.buildFailed job path f balance e)
  /-- The address holds less than the gas costs. -/
  | unaffordable (balance nonce : Nat) (fees : Fees) (estimate : Nat)
      (short : balance < (f.assembled s view path nonce fees estimate).gasCostWei) :
      LeasedStretch s view job path f (.estimatingGas balance nonce fees) (.gas estimate)
        (f.underfunded job path balance (f.assembled s view path nonce fees estimate).gasCostWei
          (.other { message := view.pool.address path ++ " holds " ++ toString balance ++
            " wei, needs " ++
            toString (f.assembled s view path nonce fees estimate).gasCostWei ++ " for gas" }))
  | built (balance nonce : Nat) (fees : Fees) (estimate : Nat)
      (enough : ¬ balance < (f.assembled s view path nonce fees estimate).gasCostWei) :
      LeasedStretch s view job path f (.estimatingGas balance nonce fees) (.gas estimate)
        (f.proceed (.buildingInstruction (f.assembled s view path nonce fees estimate))
          [.update job
            { requestId :=
                some (f.requestIdOf s path (f.assembled s view path nonce fees estimate))
              nonce := some (f.assembled s view path nonce fees estimate).nonce }] [])
  | estimateFailed (balance nonce : Nat) (fees : Fees) (e : JsError) :
      LeasedStretch s view job path f (.estimatingGas balance nonce fees) (.throw e)
        (resumeLeased.buildFailed job path f balance e)
  | instructed (built : BuiltTransaction) :
      LeasedStretch s view job path f (.buildingInstruction built) .instruction
        (f.await (.sendingSolana built) [.began job .sendAndConfirm])
  | uninstructed (built : BuiltTransaction) (e : JsError) :
      LeasedStretch s view job path f (.buildingInstruction built) (.throw e)
        (f.throws (.other e) [])
  /-- The request is on Solana, and both waits are registered. -/
  | requested (built : BuiltTransaction) (signature : String) :
      LeasedStretch s view job path f (.sendingSolana built) (.solanaTx signature)
        (f.await (.awaitingSignature built)
          [.update job
            { state := some .signSent
              solanaTx := some signature
              timings := { signSentAt := some view.now } },
           .update job { state := some .awaitingSignature }])
  | unrequested (built : BuiltTransaction) (e : JsError) :
      LeasedStretch s view job path f (.sendingSolana built) (.throw e) (f.throws (.other e) [])
  | signed (built : BuiltTransaction) (signature : RSVSignature) :
      LeasedStretch s view job path f (.awaitingSignature built) (.rsv signature)
        (f.await (.attachingSignature built signature)
          [.update job { timings := { signatureAt := some view.now } }])
  | unsigned (built : BuiltTransaction) (e : JsError) :
      LeasedStretch s view job path f (.awaitingSignature built) (.throw e)
        (f.returns [.fail job .signatureTimeout (.other e)])
  | unattached (built : BuiltTransaction) (signature : RSVSignature) (e : JsError)
      (attach : attachSignature s.libs built.unsigned signature = .error e) :
      LeasedStretch s view job path f (.attachingSignature built signature) .resume
        (f.throws (.other e) [])
  /-- The signature is not the worker's. -/
  | mismatched (built : BuiltTransaction) (signature : RSVSignature) (signed : SignedTransaction)
      (attach : attachSignature s.libs built.unsigned signature = .ok signed) (e : JobError)
      (check : assertDerivedSender s.libs (view.pool.address path) signed.recoveredFrom =
        .error e) :
      LeasedStretch s view job path f (.attachingSignature built signature) .resume
        (f.returns [.fail job .derivationMismatch e])
  /-- It is, and the transaction is broadcast. -/
  | verified (built : BuiltTransaction) (signature : RSVSignature) (signed : SignedTransaction)
      (attach : attachSignature s.libs built.unsigned signature = .ok signed)
      (check : assertDerivedSender s.libs (view.pool.address path) signed.recoveredFrom = .ok ()) :
      LeasedStretch s view job path f (.attachingSignature built signature) .resume
        (f.await (.broadcasting built signed.serialized)
          [.update job { state := some .verified },
           .began job (.sendRawTransaction signed.serialized)])
  | broadcast (built : BuiltTransaction) (serialized hash : Hex) :
      LeasedStretch s view job path f (.broadcasting built serialized) (.txHash hash)
        (f.await (.confirming built hash)
          [.update job
            { state := some .broadcast
              ethTxHash := some hash
              timings := { broadcastAt := some view.now } }])
  | broadcastFailed (built : BuiltTransaction) (serialized : Hex) (e : JsError) :
      LeasedStretch s view job path f (.broadcasting built serialized) (.throw e)
        (f.returns [.quarantine path built.nonce, .fail job .broadcastFailed (.other e)])
  /-- The receipt is there: the lease ends, and the respond deadline is set. -/
  | confirmed (built : BuiltTransaction) (hash : Hex) (released : Frame) (effects : List Effect)
      (release : f.releaseLease = (released, effects)) :
      LeasedStretch s view job path f (.confirming built hash) (.receipt true)
        ({ released with respondDeadline := true, pc := .responding },
          .update job
            { state := some .confirmed
              timings := { confirmedAt := some view.now } } :: effects)
  | reverted (built : BuiltTransaction) (hash : Hex) :
      LeasedStretch s view job path f (.confirming built hash) (.receipt false)
        (f.returns [.fail job .transactionReverted
          (.other { message := "Transaction " ++ hash ++ " reverted" })])
  | unconfirmed (built : BuiltTransaction) (hash : Hex) (e : JsError) :
      LeasedStretch s view job path f (.confirming built hash) (.throw e)
        (f.returns [.quarantine path built.nonce, .fail job .confirmationTimeout (.other e)])
  /-- The MPC has responded something else than `true`. -/
  | unexpected (output : SerializedOutput)
      (differs : toHexString output ≠ expectedSerializedOutput) :
      LeasedStretch s view job path f .responding (.respond output)
        ({ f with respondDeadline := false }.returns
          [.update job
            { serializedOutput := some (toHexString output)
              timings := { respondedAt := some view.now } },
           .fail job .respondMismatch
            (.other { message := "Expected " ++ expectedSerializedOutput ++ ", got " ++
              toHexString output })])
  | responded (output : SerializedOutput)
      (agrees : ¬ toHexString output ≠ expectedSerializedOutput) :
      LeasedStretch s view job path f .responding (.respond output)
        ({ f with respondDeadline := false }.returns
          [.update job
            { serializedOutput := some (toHexString output)
              timings := { respondedAt := some view.now } },
           .update job
            { state := some .responded
              timings := { finishedAt := some view.now } }])
  | unresponded (e : JsError) :
      LeasedStretch s view job path f .responding (.throw e)
        ({ f with respondDeadline := false }.returns [.fail job .respondTimeout (.other e)])

/-- From one `await` to the next. -/
inductive Stretch (s : Setup) (view : RunView) (job : Nat) (f : Frame) :
    Reply → Frame × List Effect → Prop
  | underived (derivation : Nat) (stands : f.pc = .ensuringAddresses derivation) (e : JsError)
      (rejected : view.derived derivation = some (.error e)) :
      Stretch s view job f .resume (f.throws (.other e) [])
  | derived (derivation : Nat) (stands : f.pc = .ensuringAddresses derivation)
      (fulfilled : view.derived derivation = some (.ok ())) :
      Stretch s view job f .resume
        (f.await (.reconciling (view.pool.quarantined.map Worker.path)) [])
  | counted (path : String) (rest : List String) (latest pending : Nat)
      (stands : f.pc = .reconciling (path :: rest)) :
      Stretch s view job f (.counts latest pending)
        (f.await (.reconciling rest) [.reconcile path (decide (latest < pending))])
  | uncounted (path : String) (rest : List String) (e : JsError)
      (stands : f.pc = .reconciling (path :: rest)) :
      Stretch s view job f (.throw e) (f.throws (.other e) [])
  | reconciled (stands : f.pc = .reconciling []) :
      Stretch s view job f .resume
        (f.await (.refreshingUnderfunded (view.pool.skipFunded view.pool.paths)) [])
  | refreshed (path : String) (rest : List String) (balance : Nat)
      (stands : f.pc = .refreshingUnderfunded (path :: rest)) :
      Stretch s view job f (.balance balance)
        (f.await
          (.refreshingUnderfunded
            ((view.pool.setBalance path balance s.env.bidirectional.minBalanceWei).skipFunded
              rest))
          [.setBalance path balance s.env.bidirectional.minBalanceWei])
  | unrefreshed (path : String) (rest : List String) (e : JsError)
      (stands : f.pc = .refreshingUnderfunded (path :: rest)) :
      Stretch s view job f (.throw e) (f.throws (.other e) [])
  | asked (stands : f.pc = .refreshingUnderfunded []) :
      Stretch s view job f .resume (f.proceed .leasing [] [.acquireWithin job])
  | refused (stands : f.pc = .leasing) (e : JobError)
      (settled : view.pool.settlement job = some (.rejected e)) :
      Stretch s view job f .resume (f.throws e [])
  | leased (stands : f.pc = .leasing) (path : String)
      (settled : view.pool.settlement job = some (.resolved path)) :
      Stretch s view job f .resume
        ({ f with worker := some path }.await .readingBalance
          [.update job
            { path := some path
              derivedAddress := some (view.pool.address path)
              timings := { leaseAcquiredAt := some view.now } }])
  /-- The `catch` of `start` fails the job that `run()` has rejected. -/
  | recorded (e : JobError) (stands : f.pc = .rejected e) :
      Stretch s view job f .resume ({ f with pc := .ended }, [.fail job e.failureReason e])
  /-- Later, with an address. -/
  | works (reply : Reply) (next : Frame × List Effect) (path : String)
      (worker : f.worker = some path)
      (resumed : f.resumeLeased s view job path f.pc reply = some next) :
      Stretch s view job f reply next

variable {s : Setup} {view : RunView} {job : Nat} {path : String} {f : Frame} {pc : Pc}
  {reply : Reply} {next : Frame × List Effect}

/-- What the code from `leasing` on does is one of these stretches. -/
theorem resumeLeased_stretch (h : f.resumeLeased s view job path pc reply = some next) :
    f.LeasedStretch s view job path pc reply next := by
  revert h
  -- one case for each branch of the definition, in its order; from here on they have names
  fun_cases Frame.resumeLeased s view job path f pc reply <;> intro h <;> cases h
  case case1 => exact .poor _ ‹_›
  case case2 => exact .funded _ ‹_›
  case case3 => exact .balanceFailed _
  case case4 => exact .nonceRead _ _ _
  case case5 => exact .nonceFailed _ _
  case case6 => exact .unaffordable _ _ _ _ ‹_›
  case case7 => exact .built _ _ _ _ ‹_›
  case case8 => exact .estimateFailed _ _ _ _
  case case9 => exact .instructed _
  case case10 => exact .uninstructed _ _
  case case11 => exact .requested _ _
  case case12 => exact .unrequested _ _
  case case13 => exact .signed _ _
  case case14 => exact .unsigned _ _
  case case15 => exact .unattached _ _ _ ‹_›
  case case16 => exact .mismatched _ _ _ ‹_› _ ‹_›
  case case17 => exact .verified _ _ _ ‹_› ‹_›
  case case18 => exact .broadcast _ _ _
  case case19 => exact .broadcastFailed _ _ _
  case case20 => exact .confirmed _ _ _ _ ‹_›
  case case21 success hreverted =>
    obtain rfl : success = false := Bool.eq_false_iff.mpr hreverted
    exact .reverted _ _
  case case22 => exact .unconfirmed _ _ _
  case case23 => exact .unexpected _ ‹_›
  case case24 => exact .responded _ ‹_›
  case case25 => exact .unresponded _

/-- What the code of `run()` does is one of these stretches. -/
theorem resume_stretch (h : f.resume s view job reply = some next) :
    f.Stretch s view job reply next := by
  revert h
  -- as above, before the lease and at its end
  fun_cases Frame.resume s view job f reply <;> intro h <;> first | cases h | skip
  case case2 => exact .underived _ ‹_› _ ‹_›
  case case3 => exact .derived _ ‹_› ‹_›
  case case4 => exact .counted _ _ _ _ ‹_›
  case case5 => exact .uncounted _ _ _ ‹_›
  case case6 => exact .reconciled ‹_›
  case case7 => exact .refreshed _ _ _ ‹_›
  case case8 => exact .unrefreshed _ _ _ ‹_›
  case case9 => exact .asked ‹_›
  case case11 => exact .refused ‹_› _ ‹_›
  case case12 => exact .leased ‹_› _ ‹_›
  case case13 => exact .recorded _ ‹_›
  case case14 => exact .works _ _ _ ‹_› h

/-- Each of the stretches is taken. -/
theorem resumeLeased_eq_some_iff : f.resumeLeased s view job path pc reply = some next ↔
    f.LeasedStretch s view job path pc reply next := by
  refine ⟨resumeLeased_stretch, fun h => ?_⟩
  cases h
  -- the branches of `resumeLeased`
  case poor balance hshort => simp only [resumeLeased, if_pos hshort]
  case funded balance henough => simp only [resumeLeased, if_neg henough]
  case unaffordable balance nonce fees estimate hshort => exact if_pos hshort
  case built balance nonce fees estimate henough => exact if_neg henough
  case unattached built signature e hattach => simp only [resumeLeased, hattach]
  case mismatched built signature signed hattach e hcheck =>
    simp only [resumeLeased, hattach, hcheck]
  case verified built signature signed hattach hcheck => simp only [resumeLeased, hattach, hcheck]
  case confirmed built hash released effects hrelease =>
    simp only [resumeLeased, if_true, hrelease]
  case unexpected output hdiffers => exact if_pos hdiffers
  case responded output hagrees => exact if_neg hagrees
  all_goals rfl

/-- The stretches are the resumptions, and no others. -/
theorem resume_eq_some_iff :
    f.resume s view job reply = some next ↔ f.Stretch s view job reply next := by
  refine ⟨resume_stretch, fun h => ?_⟩
  cases h
  case underived derivation hpc e hrejected => simp only [resume, hpc, hrejected]
  case derived derivation hpc hfulfilled => simp only [resume, hpc, hfulfilled]
  case refused hpc e hsettled => simp only [resume, hpc, hsettled]
  case leased hpc path hsettled => simp only [resume, hpc, hsettled]
  case works path hworker hresumed =>
    -- where `resumeLeased` goes on, no other branch does
    generalize hpc : f.pc = pc at hresumed
    unfold resume
    rw [hpc]
    cases resumeLeased_stretch hresumed <;> simp only [hworker, hresumed]
  all_goals simp only [resume, ‹f.pc = _›]

/-- With an address, a stretch from an `await` after its lease is taken. -/
theorem LeasedStretch.resume (h : f.LeasedStretch s view job path f.pc reply next)
    (hworker : f.worker = some path) : f.resume s view job reply = some next :=
  resume_eq_some_iff.mpr (.works _ _ path hworker (resumeLeased_eq_some_iff.mpr h))

end ContractPinger.Frame

namespace ContractPinger.World

/-- From one `await` of `GET /workers` to the next. -/
inductive RequestStretch (s : Setup) (w : World) :
    RequestPc → Reply → RequestPc × List Effect → Prop
  | underived (derivation : Nat) (e : JsError)
      (rejected : w.derived derivation = some (.error e)) :
      RequestStretch s w (.ensuringAddresses derivation) .resume (.answered false, [])
  | derived (derivation : Nat) (fulfilled : w.derived derivation = some (.ok ())) :
      RequestStretch s w (.ensuringAddresses derivation) .resume
        (refreshFrom w.pool w.pool.paths, [])
  | refreshed (path : String) (rest : List String) (balance : Nat) :
      RequestStretch s w (.refreshing (path :: rest)) (.balance balance)
        (refreshFrom (w.pool.setBalance path balance s.env.bidirectional.minBalanceWei) rest,
          [.setBalance path balance s.env.bidirectional.minBalanceWei])
  | unrefreshed (path : String) (rest : List String) (e : JsError) :
      RequestStretch s w (.refreshing (path :: rest)) (.throw e) (.answered false, [])
  | counted (path : String) (rest : List String) (latest pending : Nat) :
      RequestStretch s w (.reconciling (path :: rest)) (.counts latest pending)
        (.reconciling rest, [.reconcile path (decide (latest < pending))])
  | uncounted (path : String) (rest : List String) (e : JsError) :
      RequestStretch s w (.reconciling (path :: rest)) (.throw e) (.answered false, [])
  | answered : RequestStretch s w (.reconciling []) .resume (.answered true, [])

/-- From one `await` of a derivation to the next. -/
inductive DerivationStretch (s : Setup) (w : World) (index : Nat) :
    Derivation → Reply → World → Prop
  | derived (solana : SolanaContext) (path : String) (rest : List String)
      (derived : List DerivedWorker) :
      DerivationStretch s w index (.deriving solana (path :: rest) derived) .resume
        { w with derivations := w.derivations.set index
                  (.deriving solana rest (derived ++ [deriveWorker s.libs solana path])) }
  | threw (solana : SolanaContext) (path : String) (rest : List String)
      (derived : List DerivedWorker) (e : JsError) :
      DerivationStretch s w index (.deriving solana (path :: rest) derived) (.throw e)
        { w with derivations := w.derivations.set index (.failing e) }
  /-- Every path is derived: the addresses are applied. -/
  | applied (solana : SolanaContext) (derived : List DerivedWorker) :
      DerivationStretch s w index (.deriving solana [] derived) .resume
        { w with
          pool := applyAddresses w.pool derived
          derivations := w.derivations.set index .fulfilled }
  /-- The `catch`: the next caller starts over. -/
  | caught (e : JsError) :
      DerivationStretch s w index (.failing e) .resume
        { w with
          addressesReady := none
          derivations := w.derivations.set index (.rejected e) }

variable {s : Setup} {w w' : World} {reply : Reply}

/-- A request that goes on goes through one of its stretches. -/
theorem resumeRequest_stretch {pc : RequestPc} {next : RequestPc × List Effect}
    (h : w.resumeRequest s pc reply = some next) : w.RequestStretch s pc reply next := by
  revert h
  fun_cases World.resumeRequest w s pc reply <;> intro h <;> cases h
  case case2 => exact .underived _ _ ‹_›
  case case3 => exact .derived _ ‹_›
  case case4 => exact .refreshed _ _ _
  case case5 => exact .unrefreshed _ _ _
  case case6 => exact .counted _ _ _ _
  case case7 => exact .uncounted _ _ _
  case case8 => exact .answered

/-- So does a derivation. -/
theorem resumeDerivation_stretch {index : Nat} {d : Derivation}
    (h : w.resumeDerivation s index d reply = some w') :
    w.DerivationStretch s index d reply w' := by
  revert h
  fun_cases World.resumeDerivation w s index d reply <;> intro h <;> cases h
  case case1 => exact .derived _ _ _ _
  case case2 => exact .threw _ _ _ _ _
  case case3 => exact .applied _ _
  case case4 => exact .caught _

end ContractPinger.World
