import ContractPinger.Model.World

/-!
# Aggregates over the job store

`src/jobs/stats.ts`, and the percentiles that `scripts/loadtest.ts` computes on its own. The
fraction in the index of a percentile is exact here. An object literal with one entry for
each stage is a function of the stage.
-/

namespace ContractPinger

/-- `Math.min(length - 1, Math.floor((p / 100) * length))`. -/
def percentileIndex (length : Nat) (p : ℚ) : Nat := min (length - 1) ⌊p / 100 * length⌋₊

/-- `percentile`, of values already sorted. -/
def percentile (sorted : List Millis) (p : ℚ) : Option Millis :=
  if sorted.length = 0 then none else sorted[percentileIndex sorted.length p]?

/-- `[...values].sort((a, b) => a - b)`. -/
def ascending (values : List Millis) : List Millis := values.mergeSort fun a b => decide (a ≤ b)

/-- What `summarize` reports. -/
structure Summary where
  count : Nat
  min : Option Millis
  p05 : Option Millis
  p50 : Option Millis
  p95 : Option Millis
  max : Option Millis
deriving DecidableEq, Repr

def summarize (values : List Millis) : Summary :=
  let sorted := ascending values
  { count := sorted.length
    min := if 0 < sorted.length then sorted[0]? else none
    p05 := percentile sorted 5
    p50 := percentile sorted 50
    p95 := percentile sorted 95
    max := if 0 < sorted.length then sorted[sorted.length - 1]? else none }

/-- `collect`: the values that are there. -/
def collect (jobs : List JobRecord) (pick : JobRecord → Option Millis) : List Millis :=
  jobs.filterMap pick

/-- The entries of `latenciesFor`. -/
inductive LatencyStage
  | leaseWaitMs
  | signatureMs
  | confirmationMs
  | respondMs
  | totalMs
deriving DecidableEq, Repr

/-- The key of an entry. -/
def LatencyStage.name : LatencyStage → String
  | .leaseWaitMs => "leaseWaitMs"
  | .signatureMs => "signatureMs"
  | .confirmationMs => "confirmationMs"
  | .respondMs => "respondMs"
  | .totalMs => "totalMs"

/-- What an entry of `latenciesFor` summarizes. -/
def LatencyStage.values (jobs : List JobRecord) : LatencyStage → List Millis
  | .leaseWaitMs => collect jobs fun j => span (some j.timings.acceptedAt) j.timings.leaseAcquiredAt
  | .signatureMs => collect jobs fun j => span j.timings.signSentAt j.timings.signatureAt
  | .confirmationMs => collect jobs fun j => span j.timings.broadcastAt j.timings.confirmedAt
  | .respondMs => collect jobs fun j => span j.timings.confirmedAt j.timings.respondedAt
  -- successes only: a failure sets `finishedAt` too
  | .totalMs => collect (jobs.filter fun j => j.state == .responded) fun j =>
      span (some j.timings.acceptedAt) j.timings.finishedAt

def latenciesFor (jobs : List JobRecord) (stage : LatencyStage) : Summary :=
  summarize (stage.values jobs)

/-- `countBy`: how often each value occurs, in the order of the first occurrences. -/
def countBy {α : Type} [BEq α] (values : List α) : List (α × Nat) :=
  values.foldl (fun out value => out.upsert value ((out.lookup value).getD 0 + 1)) []

/-- An entry of `byMode`. -/
structure ModeStats where
  total : Nat
  succeeded : Nat
  failed : Nat
  latencies : LatencyStage → Summary

/-- What `buildStats` reports. -/
structure Stats where
  environment : Environment
  total : Nat
  active : Nat
  awaitingRespond : Nat
  live : Nat
  states : List (JobState × Nat)
  failures : List (FailureReason × Nat)
  usedInWindow : Nat
  retryAfterMs : Millis
  poolSize : Nat
  busy : Nat
  /-- Jobs parked for an address. -/
  waiting : Nat
  underfunded : Nat
  byMode : List (TxMode × ModeStats)

/-- The figures of one mode. -/
def modeStats (jobs : List JobRecord) (mode : TxMode) : ModeStats :=
  let modeJobs := jobs.filter fun j => j.mode == mode
  { total := modeJobs.length
    succeeded := (modeJobs.filter fun j => j.state == .responded).length
    failed := (modeJobs.filter fun j => j.state == .failed).length
    latencies := latenciesFor modeJobs }

def buildStats (s : Setup) (w : World) : Stats :=
  let jobs := w.jobs.jobs
  let used := w.limiter.used w.now
  { environment := s.environment
    total := jobs.length
    active := w.jobs.activeCount
    awaitingRespond := w.jobs.awaitingRespondCount
    live := w.jobs.liveCount
    states := countBy (jobs.map JobRecord.state)
    failures := countBy (jobs.filterMap JobRecord.failureReason)
    usedInWindow := used.1
    retryAfterMs := (used.2.retryAfterMs w.now).1
    poolSize := w.pool.size
    busy := (w.pool.workers.filter Worker.busy).length
    waiting := w.pool.waiters.length
    underfunded := (w.pool.workers.filter Worker.underfunded).length
    -- a `Set` keeps the first of equal elements
    byMode := (jobs.map JobRecord.mode).eraseDups.map fun mode => (mode, modeStats jobs mode) }

/-- `percentile` of the load driver, which sorts for itself. -/
def Loadtest.percentile (values : List Millis) (p : ℚ) : Option Millis :=
  if values.length = 0 then none
  else
    let sorted := ascending values
    sorted[min (sorted.length - 1) ⌊p / 100 * sorted.length⌋₊]?

end ContractPinger
