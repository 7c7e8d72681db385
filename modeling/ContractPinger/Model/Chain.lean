import ContractPinger.Model.World

/-!
# The service and its chain

No Ethereum node is part of this repository; `Chain` stands for one, with as little as the
service relies on. A transaction that is sent is in flight until the node has accepted it or
it is lost, and one that was accepted is outstanding until it is mined or dropped. While an
account has one outstanding its pending count exceeds its latest count, otherwise the two are
equal. All else is up to the node: counts move at any time, to any values that keep to this,
and a transaction may be accepted after its `sendRawTransaction` has been answered or has
thrown.

A `Deployment` is a service on its chain. `getTransactionCount` is answered with the value at
some instant between its issue and its reply.
-/

namespace ContractPinger

/-- A transaction that was sent from one of the service's addresses. -/
structure SentTx where
  job : Nat
  address : Hex
  nonce : Nat
deriving DecidableEq, Repr

structure Chain where
  /-- `getTransactionCount` at `latest`. -/
  latest : Hex → Nat
  /-- `getTransactionCount` at `pending`. -/
  pending : Hex → Nat
  /-- Handed to `sendRawTransaction`, and neither accepted nor lost. -/
  inFlight : List SentTx := []
  /-- Accepted, and neither mined nor dropped. -/
  outstanding : List SentTx := []

namespace Chain

/-- The transactions that are, or may yet be, outstanding. -/
def live (c : Chain) : List SentTx := c.inFlight ++ c.outstanding

/-- The counts an account can have, given what is outstanding. -/
def agrees (c : Chain) (address : Hex) (latest pending : Nat) : Bool :=
  if c.outstanding.any fun tx => tx.address == address then decide (latest < pending)
  else pending == latest

/-- The counts of an account become the given ones. -/
def recount (c : Chain) (address : Hex) (latest pending : Nat) : Option Chain :=
  if c.agrees address latest pending then
    some { c with
      latest := Function.update c.latest address latest
      pending := Function.update c.pending address pending }
  else none

/-- Transactions are handed to the node. -/
def send (c : Chain) (txs : List SentTx) : Chain := { c with inFlight := c.inFlight ++ txs }

/-- A transaction in flight never reaches a node. -/
def lose (c : Chain) (tx : SentTx) : Option Chain :=
  if c.inFlight.contains tx then some { c with inFlight := c.inFlight.erase tx } else none

/-- The node accepts a transaction in flight, and counts it. -/
def accept (c : Chain) (tx : SentTx) (latest pending : Nat) : Option Chain :=
  if c.inFlight.contains tx then
    { c with
      inFlight := c.inFlight.erase tx
      outstanding := c.outstanding ++ [tx] }.recount tx.address latest pending
  else none

/-- A transaction is no longer outstanding, mined or dropped, and is no longer counted. -/
def leave (c : Chain) (tx : SentTx) (latest pending : Nat) : Option Chain :=
  if c.outstanding.contains tx then
    { c with outstanding := c.outstanding.erase tx }.recount tx.address latest pending
  else none

end Chain

/-- The answers, so far, to the two counts of one round of `reconcileQuarantined`. -/
structure CountReads where
  latest : Option Nat := none
  pending : Option Nat := none
deriving DecidableEq, Repr

/-- The path whose counts a process is reading. -/
def World.reconcilingPath (w : World) : Proc → Option String
  | .job id =>
    match w.frames[id]?.map Frame.pc with
    | some (.reconciling (path :: _)) => some path
    | _ => none
  | .request id =>
    match w.requests[id]? with
    | some (.reconciling (path :: _)) => some path
    | _ => none

/-- The path and the nonce of the transaction a job is sending. -/
def World.broadcasting (w : World) (job : Nat) : Option (String × Nat) :=
  w.frames[job]?.bind fun f =>
    match f.pc with
    | .broadcasting built _ => f.worker.map fun path => (path, built.nonce)
    | _ => none

/-- What a step that led here has handed to `sendRawTransaction`: a job that was resumed, and
    now waits for its answer, has just called it. -/
def World.sentBy (w : World) : Action → List SentTx
  | .resume job _ =>
    ((w.broadcasting job).map fun sent =>
      { job, address := w.pool.address sent.1, nonce := sent.2 : SentTx }).toList
  | _ => []

/-- The process a step resumes. -/
def Action.resumed : Action → Option Proc
  | .resume job _ => some (.job job)
  | .resumeRequest request _ => some (.request request)
  | _ => none

/-- A service on its chain. -/
structure Deployment where
  world : World
  chain : Chain
  reads : Proc → CountReads := fun _ => {}

/-- What can happen next. -/
inductive DeploymentAction
  | service (action : Action)
  | accept (tx : SentTx) (latest pending : Nat)
  | lose (tx : SentTx)
  | mine (tx : SentTx) (latest pending : Nat)
  | drop (tx : SentTx) (latest pending : Nat)
  /-- The counts of an account move, for whatever reason. -/
  | recount (address : Hex) (latest pending : Nat)
  /-- The instant a process's count at `latest` is taken. -/
  | answerLatest (who : Proc)
  | answerPending (who : Proc)
deriving DecidableEq, Repr

namespace Deployment

/-- A new service on a chain with the given counts and nothing outstanding. -/
def new (s : Setup) (now : Millis) (counts : Hex → Nat) : Deployment where
  world := World.new s now
  chain := { latest := counts, pending := counts }

/-- The two counts have been answered, and these are the answers. -/
def hasRead (d : Deployment) (who : Proc) (latest pending : Nat) : Bool :=
  d.reads who == { latest := some latest, pending := some pending }

/-- The reply is one the chain can have given. -/
def answers (d : Deployment) : Action → Bool
  | .resume job (.counts latest pending) => d.hasRead (.job job) latest pending
  | .resumeRequest request (.counts latest pending) =>
    d.hasRead (.request request) latest pending
  -- a receipt is of a transaction that is no longer outstanding
  | .resume job (.receipt _) => d.chain.live.all fun tx => tx.job != job
  | _ => true

def setReads (d : Deployment) (who : Proc) (reads : CountReads) : Deployment :=
  { d with reads := Function.update d.reads who reads }

/-- A process that goes on has no more counts in flight. -/
def forget (d : Deployment) : Option Proc → Deployment
  | none => d
  | some who => d.setReads who {}

/-- One step. -/
def step (s : Setup) (d : Deployment) : DeploymentAction → Option Deployment
  | .service action =>
    if d.answers action then
      (World.step s d.world action).map fun world =>
        { d with
          world
          chain := d.chain.send (world.sentBy action) }.forget action.resumed
    else none
  | .accept tx latest pending =>
    (d.chain.accept tx latest pending).map fun chain => { d with chain }
  | .lose tx => (d.chain.lose tx).map fun chain => { d with chain }
  | .mine tx latest pending =>
    (d.chain.leave tx latest pending).map fun chain => { d with chain }
  | .drop tx latest pending =>
    (d.chain.leave tx latest pending).map fun chain => { d with chain }
  | .recount address latest pending =>
    (d.chain.recount address latest pending).map fun chain => { d with chain }
  | .answerLatest who =>
    (d.world.reconcilingPath who).bind fun path =>
      -- each of the two counts of a round is taken once
      if (d.reads who).latest.isSome then none
      else
        let latest := d.chain.latest (d.world.pool.address path)
        some (d.setReads who { d.reads who with latest := some latest })
  | .answerPending who =>
    (d.world.reconcilingPath who).bind fun path =>
      if (d.reads who).pending.isSome then none
      else
        let pending := d.chain.pending (d.world.pool.address path)
        some (d.setReads who { d.reads who with pending := some pending })

end Deployment

end ContractPinger
