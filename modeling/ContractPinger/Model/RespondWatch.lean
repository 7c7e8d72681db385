import ContractPinger.Model.World

/-!
# The wait for the respond, and its time

The two waits for an event of the MPC that `run()` of `src/handlers/signBidirectional.ts`
registers, over the service of `World`, with the time that timers go by. That time only ever
passes, whatever `Date.now()` says. A wait of signet.js is settled once: by its event, by its
own timeout, or by its signal. Its timeout is a timer of Node, as the respond deadline is.
-/

namespace ContractPinger

/-- The longest delay that `setTimeout` takes. -/
def maxTimerDelay : Nat := 2147483647

/-- `setTimeout` takes the delay as it is. -/
def FitsTimer (ms : Nat) : Prop := 1 ≤ ms ∧ ms ≤ maxTimerDelay

instance (ms : Nat) : Decidable (FitsTimer ms) := inferInstanceAs (Decidable (_ ∧ _))

/-- After how long `setTimeout` calls back: Node documents that any other delay is set to 1. -/
def timerDelay (ms : Nat) : Nat := if FitsTimer ms then ms else 1

/-- The wait of a job for its respond, and the instants of its run that bear on it. -/
structure Watch where
  /-- Both waits were registered. -/
  registeredAt : Nat
  /-- `waitForTransactionReceipt` was called. -/
  waitingAt : Option Nat := none
  /-- The receipt was there. -/
  confirmedAt : Option Nat := none
  /-- The respond arrived, whether or not anybody was still waiting for it. -/
  arrivedAt : Option Nat := none
  /-- `respondPromise`, once it is settled. -/
  settled : Option (Nat × Except JsError SerializedOutput) := none
deriving DecidableEq

namespace Watch

/-- `timeoutMs` of the wait: the whole worst-case span. -/
def span (s : Setup) : Nat :=
  s.env.bidirectional.signatureTimeoutMs + s.env.bidirectional.ethConfirmTimeoutMs +
    s.env.bidirectional.respondTimeoutMs

/-- When the wait times out. -/
def expiry (s : Setup) (v : Watch) : Nat := v.registeredAt + timerDelay (span s)

/-- `respondDeadline` is due. -/
def due (s : Setup) (v : Watch) (elapsed : Nat) : Bool :=
  v.confirmedAt.any fun confirmed =>
    confirmed + timerDelay s.env.bidirectional.respondTimeoutMs ≤ elapsed

/-- Settle the promise: the first outcome stays. -/
def settle (v : Watch) (elapsed : Nat) (outcome : Except JsError SerializedOutput) : Watch :=
  { v with settled := v.settled <|> some (elapsed, outcome) }

/-- The outcome of the promise. -/
def outcome (v : Watch) : Option (Except JsError SerializedOutput) := v.settled.map Prod.snd

end Watch

/-- A service, the time that has passed since it was started, and the respond waits of its jobs. -/
structure TimedService where
  world : World
  elapsed : Nat := 0
  watches : Nat → Option Watch := fun _ => none
  /-- `abortActiveJobs` has run. -/
  shutdown : Bool := false

/-- What can happen next. -/
inductive TimedAction
  | service (action : Action)
  | tick (ms : Nat)
  | respondArrives (job : Nat) (output : SerializedOutput)
  /-- The respond wait of a job times out. -/
  | watchExpires (job : Nat) (error : JsError)
deriving DecidableEq

namespace TimedService

/-- A service that has just been started. -/
def new (s : Setup) (now : Millis) : TimedService := { world := World.new s now }

/-- The answer can come at this instant: a signature within its budget of the registration, a
    receipt within its budget of the call, and from the respond wait what it has been settled
    with. -/
def timely (s : Setup) (w : TimedService) (job : Nat) : Pc → Reply → Bool
  | .awaitingSignature _, .rsv _ => (w.watches job).all fun v =>
    w.elapsed ≤ v.registeredAt + s.env.bidirectional.signatureTimeoutMs
  | .confirming _ _, .receipt _ => (w.watches job).all fun v => v.waitingAt.all fun waiting =>
    w.elapsed ≤ waiting + s.env.bidirectional.ethConfirmTimeoutMs
  | .responding, .respond output => (w.watches job).bind Watch.outcome == some (.ok output)
  | .responding, .throw e => (w.watches job).bind Watch.outcome == some (.error e)
  | _, _ => true

/-- An action of the service can happen at this instant: an answer when it can come, and the
    respond deadline when it is due. -/
def permits (s : Setup) (w : TimedService) : Action → Bool
  | .resume job reply => (w.world.frames[job]?).all fun f => w.timely s job f.pc reply
  | .respondDeadline job => (w.watches job).any fun v => v.due s w.elapsed
  | _ => true

/-- What an answer makes of the wait of its job. -/
def noted (w : TimedService) (job : Nat) (f : Frame) (reply : Reply) : Option Watch :=
  match f.pc, reply with
  | .sendingSolana _, .solanaTx _ =>
    -- on a signal that is aborted already the wait is rejected at once
    some { registeredAt := w.elapsed
           settled := f.aborted.map fun reason => (w.elapsed, .error reason) }
  | .broadcasting _ _, .txHash _ =>
    (w.watches job).map fun v => { v with waitingAt := some w.elapsed }
  | .confirming _ _, .receipt true =>
    (w.watches job).map fun v => { v with confirmedAt := some w.elapsed }
  | _, _ => w.watches job

/-- What an action of the service makes of the wait of a job. -/
def watchAfter (s : Setup) (w : TimedService) (job : Nat) : Action → Option Watch
  | .resume resumed reply =>
    match w.world.frames[job]? with
    | some f => if resumed = job then w.noted job f reply else w.watches job
    | none => w.watches job
  | .respondDeadline aborted =>
    (w.watches job).map fun v =>
      if aborted = job then v.settle w.elapsed (.error (World.respondDeadlineError s)) else v
  | .abortActiveJobs =>
    (w.watches job).map fun v =>
      if (w.world.frames[job]?).any Frame.listed then v.settle w.elapsed (.error abortError) else v
  | _ => w.watches job

/-- One step. -/
def step (s : Setup) (w : TimedService) : TimedAction → Option TimedService
  | .service action =>
    if w.permits s action then
      (World.step s w.world action).map fun world =>
        { w with
          world
          watches := fun job => w.watchAfter s job action
          shutdown := w.shutdown || action == .abortActiveJobs }
    else none
  | .tick ms => some { w with elapsed := w.elapsed + ms }
  | .respondArrives job output =>
    (w.watches job).map fun v =>
      { w with watches := Function.update w.watches job
                (some { v.settle w.elapsed (.ok output) with
                  arrivedAt := v.arrivedAt <|> some w.elapsed }) }
  | .watchExpires job error =>
    (w.watches job).bind fun v =>
      if v.expiry s ≤ w.elapsed then
        some { w with watches := Function.update w.watches job
                        (some (v.settle w.elapsed (.error error))) }
      else none

end TimedService

end ContractPinger
