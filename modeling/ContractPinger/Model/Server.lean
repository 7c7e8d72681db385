import ContractPinger.Model.World

/-!
# The server

`src/index.ts`, as far as it admits and inspects jobs, over the services of `getService`:
one `BidirectionalService` for each network that was ever asked for. A handler of these
routes runs without interruption up to its first `await`, and `POST /sign_bidirectional`
has none.
-/

namespace ContractPinger

/-- A value of a parsed body or query, as far as `typeof` and a template literal tell. -/
inductive JsValue
  | undefined
  | null
  | string (value : String)
  /-- Anything else, with what a template literal makes of it. -/
  | other (rendered : Except JsError String)

/-- The wire name of a mode. -/
def TxMode.name : TxMode → String
  | .ethSelfTransfer => "eth_self_transfer"
  | .erc20ZeroTransfer => "erc20_zero_transfer"

/-- `TX_MODES`. -/
def txModes : List TxMode := [.ethSelfTransfer, .erc20ZeroTransfer]

/-- `bidirectionalEnvironments`. -/
def bidirectionalEnvironments : List Environment := [.dev, .testnet, .mainnet]

/-- The wire name of a ceiling. -/
def Capacity.name : Capacity → String
  | .active => "active"
  | .awaitingRespond => "awaiting_respond"

/-- `POST /sign_bidirectional`, with the fields its handlers read. -/
structure PostRequest where
  /-- The `x-api-secret` header. -/
  header : Option String := none
  secret : JsValue := .undefined
  env : JsValue := .undefined
  mode : JsValue := .undefined

/-- The body of a 429 that `atCapacity` caused. -/
structure CapacityRefusal where
  error : String
  limit : Capacity
  activeJobs : Nat
  maxActiveJobs : Nat
  awaitingRespond : Nat
  maxAwaitingRespond : Nat
  retryAfterMs : Millis
deriving DecidableEq, Repr

/-- The answers of `POST /sign_bidirectional`. -/
inductive Response
  | unauthorized
  | invalidMode (error : String) (validModes : List String)
  | unresolved (error : String) (validEnvironments : List String)
  | full (retryAfterSeconds : Int) (body : CapacityRefusal)
  | rateLimited (retryAfterSeconds : Int) (limitPerMinute : Nat) (retryAfterMs : Millis)
  | accepted (jobId : Nat) (state : JobState) (mode : TxMode)
  | failed (details : String)
deriving DecidableEq, Repr

namespace Response

/-- The status code of an answer. -/
def status : Response → Nat
  | .unauthorized => 401
  | .invalidMode _ _ => 400
  | .unresolved _ _ => 400
  | .full _ _ => 429
  | .rateLimited _ _ _ => 429
  | .accepted _ _ _ => 202
  | .failed _ => 500

end Response

/-- `Math.ceil(ms / 1000)`. -/
def ceilSeconds (ms : Millis) : Int := -(-ms / 1000)

/-- What every service is built from. -/
structure Config where
  env : Env
  libs : Libraries

/-- The same for one network. -/
def Config.setup (c : Config) (environment : Environment) : Setup :=
  { env := c.env, libs := c.libs, environment }

/-- `validateSecret`: the header wins over the body, unless it is empty. -/
def authorized (env : Env) (request : PostRequest) : Bool :=
  match request.header with
  | some secret =>
    if secret ≠ "" then env.apiSecret == some secret else bodyAuthorized
  | none => bodyAuthorized
where
  bodyAuthorized : Bool :=
    match request.secret with
    | .string secret => secret != "" && env.apiSecret == some secret
    | _ => false

/-- `mode ?? env.bidirectional.txMode`, if `isTxMode` accepts it. -/
def requestedMode (env : Env) : JsValue → Option TxMode
  | .undefined => some env.bidirectional.txMode
  | .null => some env.bidirectional.txMode
  | .string value => txModes.find? fun mode => mode.name == value
  | .other _ => none

/-- The answer to a mode that `isTxMode` refuses; rendering it may throw. -/
def invalidMode : JsValue → Response
  | .string value => invalid value
  | .other (.ok rendered) => invalid rendered
  | .other (.error e) => .failed e.message
  | .undefined => invalid "undefined"
  | .null => invalid "null"
where
  invalid (rendered : String) : Response :=
    .invalidMode ("Invalid mode: " ++ rendered) (txModes.map TxMode.name)

/-- The 429 for a full store. The ceilings it reports are read from the configuration. -/
def capacityRefusal (env : Env) (jobs : JobStore) (limit : Capacity) : Response :=
  let retryAfterMs : Millis := if limit = .active then 15000 else 60000
  .full (ceilSeconds retryAfterMs)
    { error :=
        if limit = .active then "Too many jobs holding an address"
        else "Too many jobs awaiting the MPC respond"
      limit
      activeJobs := jobs.activeCount
      maxActiveJobs := env.bidirectional.maxActiveJobs
      awaitingRespond := jobs.awaitingRespondCount
      maxAwaitingRespond := env.bidirectional.maxJobs
      retryAfterMs }

/-- The handler of `POST /sign_bidirectional` once it has its mode and its service. It does not
    `await`, so `tryAcquire`, `retryAfterMs` and `create`, each of which reads `Date.now()` for
    itself, are given the one instant `w.now`. -/
def World.handlePost (w : World) (s : Setup) (mode : TxMode) : World × Response :=
  -- capacity first, so that a refusal consumes no arrival slot
  match w.jobs.atCapacity with
  | some limit => (w, capacityRefusal s.env w.jobs limit)
  | none =>
    match w.limiter.tryAcquire w.now with
    | (false, limiter) =>
      let retry := limiter.retryAfterMs w.now
      ({ w with limiter := retry.2 },
        .rateLimited (ceilSeconds retry.1) s.env.bidirectional.maxRequestsPerMinute retry.1)
    | (true, limiter) =>
      let job := JobStore.newJob w.frames.length s.environment mode w.now
      ({ w with limiter }.start s mode, .accepted job.id job.state mode)

/-- The calls `buildStats` makes on the limiter. -/
def World.readStats (w : World) : World :=
  { w with limiter := ((w.limiter.used w.now).2.retryAfterMs w.now).2 }

/-- The server: its `services`, by network. -/
structure App where
  services : Environment → Option World := fun _ => none
  now : Millis := 0

/-- What can happen to a server next. -/
inductive AppAction
  | post (request : PostRequest)
  /-- `GET /sign_bidirectional/workers`, with its `env` query. -/
  | getWorkers (query : JsValue)
  /-- `GET /sign_bidirectional/stats`, likewise. -/
  | getStats (query : JsValue)
  /-- Something that runs on one of the services goes on. -/
  | service (environment : Environment) (action : Action)
  | abortActiveJobs
  | clock (now : Millis)

/-- What goes on by itself on a service: no new arrival, no shutdown, no clock. -/
def Action.resumes : Action → Bool
  | .start _ => false
  | .getWorkers => false
  | .abortActiveJobs => false
  | .clock _ => false
  | .resume _ _ => true
  | .resumeRequest _ _ => true
  | .resumeDerivation _ _ => true
  | .expire _ => true
  | .respondDeadline _ => true

namespace App

/-- The server as it starts, with no service. -/
def new (now : Millis) : App := { now }

/-- The service of a network, or the one `getService` would build now. -/
def serviceAt (app : App) (c : Config) (environment : Environment) : World :=
  (app.services environment).getD (World.new (c.setup environment) app.now)

/-- `services.set`. -/
def setService (app : App) (environment : Environment) (w : World) : App :=
  { app with services := Function.update app.services environment (some w) }

/-- `getService`: building a client may throw. -/
def getService (app : App) (c : Config) (environment : Environment) : Except JsError World :=
  match app.services environment with
  | some w => .ok w
  | none =>
    (c.libs.createPublicClient environment (c.env.ethereumRpcUrl environment)).map fun _ =>
      app.serviceAt c environment

/-- `resolveBidirectionalService`: an error to answer with, or the network and its service. -/
def resolve (app : App) (c : Config) (network : JsValue) :
    Except JsError (Except String (Environment × World)) :=
  match network with
  | .string name =>
    match bidirectionalEnvironments.find? fun environment => environment.name == name with
    | none => .ok (.error "Invalid or missing environment parameter")
    | some environment =>
      -- an RPC URL that is not set is the empty string
      if c.env.ethereumRpcUrl environment = "" then
        .ok (.error "Missing Ethereum RPC URL for selected environment")
      else (app.getService c environment).map fun w => .ok (environment, w)
  | _ => .ok (.error "Invalid or missing environment parameter")

/-- `query.env || 'dev'`. -/
def queryNetwork : JsValue → JsValue
  | .undefined => .string "dev"
  | .null => .string "dev"
  | .string "" => .string "dev"
  | value => value

/-- `POST /sign_bidirectional`. -/
def post (app : App) (c : Config) (request : PostRequest) : App × Response :=
  if !authorized c.env request then (app, .unauthorized)
  else
    match requestedMode c.env request.mode with
    -- a bad mode reports itself, even where the RPC URL is missing too
    | none => (app, invalidMode request.mode)
    | some mode =>
      match app.resolve c request.env with
      | .error e => (app, .failed e.message)
      | .ok (.error error) =>
        (app, .unresolved error (bidirectionalEnvironments.map Environment.name))
      | .ok (.ok (environment, w)) =>
        let admitted := w.handlePost (c.setup environment) mode
        (app.setService environment admitted.1, admitted.2)

/-- The two inspecting routes: a call on the resolved service, or an error answered. -/
def inspect (app : App) (c : Config) (query : JsValue) (call : Setup → World → World) : App :=
  match app.resolve c (queryNetwork query) with
  | .ok (.ok (environment, w)) => app.setService environment (call (c.setup environment) w)
  | _ => app

/-- One step. -/
def step (c : Config) (app : App) : AppAction → Option App
  | .post request => some (app.post c request).1
  | .getWorkers query => some (app.inspect c query fun s w => w.getWorkers s)
  | .getStats query => some (app.inspect c query fun _ w => w.readStats)
  | .service environment action =>
    -- jobs and requests arrive by the routes only
    if action.resumes then
      (app.services environment).bind fun w =>
        (World.step (c.setup environment) w action).map fun w' => app.setService environment w'
    else none
  | .abortActiveJobs =>
    some { app with services := fun environment =>
      (app.services environment).map World.abortActiveJobs }
  | .clock now =>
    -- one clock, which all services read
    some { services := fun environment =>
             (app.services environment).map fun w => { w with now }
           now }

end App

end ContractPinger
