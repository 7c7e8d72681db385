import ContractPinger.Model.Basic
import ContractPinger.ForStd.List

/-!
# The job store

`src/jobs/store.ts`. Job ids come from `randomUUID`; here they are numbers, supplied by
the caller and never repeated. The `Map` of records is a list in insertion order.
-/

namespace ContractPinger

inductive JobState
  | pending
  | signSent
  | awaitingSignature
  | verified
  | broadcast
  | confirmed
  | responded
  | failed
deriving DecidableEq, Repr

namespace JobState

/-- `responded` or `failed`: nothing more happens to the job. -/
def terminal (state : JobState) : Bool := state == .responded || state == .failed

/-- Holding an address and doing chain work. -/
def active (state : JobState) : Bool := !state.terminal && state != .confirmed

end JobState

inductive FailureReason
  | allWorkersBusy
  | allWorkersUnderfunded
  | preflightUnderfunded
  | signatureTimeout
  | derivationMismatch
  | broadcastFailed
  | confirmationTimeout
  | transactionReverted
  | respondTimeout
  | respondMismatch
  | shutdown
  | internalError
deriving DecidableEq, Repr

structure JobTimings where
  acceptedAt : Millis
  leaseAcquiredAt : Option Millis := none
  signSentAt : Option Millis := none
  signatureAt : Option Millis := none
  broadcastAt : Option Millis := none
  confirmedAt : Option Millis := none
  respondedAt : Option Millis := none
  finishedAt : Option Millis := none
deriving DecidableEq, Repr

structure JobRecord where
  id : Nat
  environment : Environment
  mode : TxMode
  state : JobState
  path : Option String := none
  derivedAddress : Option Hex := none
  requestId : Option String := none
  solanaTx : Option String := none
  ethTxHash : Option Hex := none
  nonce : Option Nat := none
  serializedOutput : Option String := none
  failureReason : Option FailureReason := none
  error : Option String := none
  timings : JobTimings
deriving DecidableEq, Repr

/-- `Partial<JobTimings>`, less `acceptedAt`: no caller patches that one. -/
structure TimingsPatch where
  leaseAcquiredAt : Option Millis := none
  signSentAt : Option Millis := none
  signatureAt : Option Millis := none
  broadcastAt : Option Millis := none
  confirmedAt : Option Millis := none
  respondedAt : Option Millis := none
  finishedAt : Option Millis := none
deriving DecidableEq, Repr

/-- `JobPatch`, with the fields some caller patches. -/
structure JobPatch where
  state : Option JobState := none
  path : Option String := none
  derivedAddress : Option Hex := none
  requestId : Option String := none
  solanaTx : Option String := none
  ethTxHash : Option Hex := none
  nonce : Option Nat := none
  serializedOutput : Option String := none
  failureReason : Option FailureReason := none
  error : Option String := none
  timings : TimingsPatch := {}
deriving DecidableEq, Repr

/-- `{ ...job.timings, ...timings }`. -/
def JobTimings.apply (t : JobTimings) (p : TimingsPatch) : JobTimings :=
  { acceptedAt := t.acceptedAt
    leaseAcquiredAt := p.leaseAcquiredAt <|> t.leaseAcquiredAt
    signSentAt := p.signSentAt <|> t.signSentAt
    signatureAt := p.signatureAt <|> t.signatureAt
    broadcastAt := p.broadcastAt <|> t.broadcastAt
    confirmedAt := p.confirmedAt <|> t.confirmedAt
    respondedAt := p.respondedAt <|> t.respondedAt
    finishedAt := p.finishedAt <|> t.finishedAt }

/-- `Object.assign(job, rest)` and the merge of the timings. -/
def JobRecord.apply (job : JobRecord) (p : JobPatch) : JobRecord :=
  { id := job.id
    environment := job.environment
    mode := job.mode
    state := p.state.getD job.state
    path := p.path <|> job.path
    derivedAddress := p.derivedAddress <|> job.derivedAddress
    requestId := p.requestId <|> job.requestId
    solanaTx := p.solanaTx <|> job.solanaTx
    ethTxHash := p.ethTxHash <|> job.ethTxHash
    nonce := p.nonce <|> job.nonce
    serializedOutput := p.serializedOutput <|> job.serializedOutput
    failureReason := p.failureReason <|> job.failureReason
    error := p.error <|> job.error
    timings := job.timings.apply p.timings }

/-- The value the retention sort compares: `a.timings.finishedAt ?? 0`. -/
def JobRecord.finishedAt (job : JobRecord) : Millis := job.timings.finishedAt.getD 0

/-- `span(from, to)`. -/
def span (start finish : Option Millis) : Option Millis :=
  match start, finish with
  | some a, some b => some (b - a)
  | _, _ => none

/-- `durationsFor`: only the stages with both ends present are listed. -/
def durationsFor (t : JobTimings) : List (String × Millis) :=
  [("leaseWaitMs", span (some t.acceptedAt) t.leaseAcquiredAt),
   ("signatureMs", span t.signSentAt t.signatureAt),
   ("confirmationMs", span t.broadcastAt t.confirmedAt),
   ("respondMs", span t.confirmedAt t.respondedAt),
   ("totalMs", span (some t.acceptedAt) t.finishedAt)].filterMap
    fun entry => entry.2.map fun ms => (entry.1, ms)

/-- `JobView`: the record with its durations. -/
structure JobView where
  record : JobRecord
  durations : List (String × Millis)
deriving DecidableEq, Repr

/-- What `atCapacity` names. -/
inductive Capacity
  | active
  | awaitingRespond
deriving DecidableEq, Repr

/-- `class JobStore`. -/
structure JobStore where
  maxJobs : Nat
  retained : Nat := 1000
  maxActiveJobs : Nat := 20
  jobs : List JobRecord := []
deriving DecidableEq, Repr

namespace JobStore

/-- `this.jobs.get(id)`. -/
def get? (store : JobStore) (id : Nat) : Option JobRecord :=
  store.jobs.find? fun j => j.id == id

/-- Drops the oldest finished jobs once more than `retained` have piled up. -/
def prune (store : JobStore) : JobStore :=
  let finished := store.jobs.filter fun j => j.state.terminal
  if finished.length ≤ store.retained then store
  else
    -- ascending and stable: of two that finished together the one created first goes first
    let oldest := (finished.mergeSort fun a b => decide (a.finishedAt ≤ b.finishedAt)).take
      (finished.length - store.retained)
    { store with jobs := store.jobs.filter fun j => !(oldest.map JobRecord.id).contains j.id }

def activeCount (store : JobStore) : Nat := store.jobs.countP fun j => j.state.active

/-- Jobs whose transaction is buried and which only await the MPC's respond. -/
def awaitingRespondCount (store : JobStore) : Nat :=
  store.jobs.countP fun j => j.state == .confirmed

def liveCount (store : JobStore) : Nat := store.activeCount + store.awaitingRespondCount

/-- Which ceiling, if either, is reached. -/
def atCapacity (store : JobStore) : Option Capacity :=
  -- with both reached, the active ceiling is the one named
  if store.maxActiveJobs ≤ store.activeCount then some .active
  else if store.maxJobs ≤ store.awaitingRespondCount then some .awaitingRespond
  else none

/-- The record `create` builds, under a fresh id. -/
def newJob (id : Nat) (environment : Environment) (mode : TxMode) (now : Millis) : JobRecord :=
  { id, environment, mode, state := .pending, timings := { acceptedAt := now } }

def create (store : JobStore) (id : Nat) (environment : Environment) (mode : TxMode)
    (now : Millis) : JobStore :=
  prune { store with jobs := store.jobs ++ [newJob id environment mode now] }

def view (store : JobStore) (id : Nat) : Option JobView :=
  (store.get? id).map fun record => { record, durations := durationsFor record.timings }

/-- Records are pruned on update as well as on create. -/
def update (store : JobStore) (id : Nat) (patch : JobPatch) : JobStore :=
  match store.get? id with
  | none => store
  | some job =>
    let updated :=
      { store with jobs := store.jobs.modifyFirst (fun j => j.id == id) fun j => j.apply patch }
    -- the state after the patch decides
    if (job.apply patch).state.terminal then updated.prune else updated

/-- The patch `fail` writes. -/
def failPatch (reason : FailureReason) (error : JobError) (now : Millis) : JobPatch :=
  { state := some .failed
    failureReason := some reason
    error := some error.message
    timings := { finishedAt := some now } }

def fail (store : JobStore) (id : Nat) (reason : FailureReason) (error : JobError)
    (now : Millis) : JobStore :=
  store.update id (failPatch reason error now)

end JobStore

end ContractPinger
