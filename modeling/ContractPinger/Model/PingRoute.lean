import ContractPinger.ForStd.List
import ContractPinger.Model.Env

/-!
# `POST /ping` and its handler registry

`src/handlers/index.ts` and the route of `src/index.ts`, up to the call of a handler. The
registry is a plain object, so a property it does not have itself is looked up in its
prototype: `Object.prototype`, until a handler registered as `__proto__` takes its place.
-/

namespace ContractPinger

/-! ## JSON values -/

/-- A value `JSON.parse` yields; of a number, what `String` makes of it. -/
inductive Json
  | null
  | bool (value : Bool)
  | number (rendered : String)
  | string (value : String)
  | array (items : List Json)
  | object (fields : List (String × Json))

namespace Json

/-- `Boolean(value)`. -/
def truthy : Json → Bool
  | .null => false
  | .bool value => value
  | .number rendered => rendered != "0"
  | .string value => value != ""
  | .array _ => true
  | .object _ => true

/-- The error of an object that converts to no primitive value. -/
def conversionError : JsError :=
  { name := "TypeError", message := "Cannot convert object to primitive value" }

mutual

/-- `String(value)`, also when the value is used as a key. -/
def toText : Json → Except JsError String
  | .null => .ok "null"
  | .bool value => .ok (if value then "true" else "false")
  | .number rendered => .ok rendered
  | .string value => .ok value
  | .array items => do
    let texts ← itemTexts items
    pure (",".intercalate texts)
  -- a `toString` of its own is no function, and `valueOf` answers the object again
  | .object fields =>
    if fields.any fun field => field.1 == "toString" then .error conversionError
    else .ok "[object Object]"

/-- What `Array.prototype.join` joins: `null` leaves its place empty. -/
def itemTexts : List Json → Except JsError (List String)
  | [] => .ok []
  | item :: rest => do
    let text ← item.toText
    let texts ← itemTexts rest
    pure ((match item with
      | .null => ""
      | _ => text) :: texts)

end

/-- A property of a parsed body. -/
def field (body : Json) (name : String) : Option Json :=
  match body with
  | .object fields => fields.lookup name
  | _ => none

end Json

/-! ## The registry -/

/-- What can be registered, as far as property access can tell. Of an object, the properties
    its prototype chain holds, and whether that chain ends at `Object.prototype`. -/
inductive JsAny
  | undefined
  | null
  | primitive (truthy : Bool) (label : String)
  | object (label : String) (properties : List (String × JsAny)) (plain : Bool)

/-- `Boolean(value)`. -/
def JsAny.truthy : JsAny → Bool
  | .undefined => false
  | .null => false
  | .primitive truthy _ => truthy
  | .object _ _ _ => true

/-- The functions of `Object.prototype`. -/
def objectPrototypeFunctions : List String :=
  ["constructor", "__defineGetter__", "__defineSetter__", "hasOwnProperty", "__lookupGetter__",
    "__lookupSetter__", "isPrototypeOf", "propertyIsEnumerable", "toString", "valueOf",
    "toLocaleString"]

/-- The prototype of an object. -/
inductive Prototype
  | objectPrototype
  | null
  | object (label : String) (properties : List (String × JsAny)) (plain : Bool)

namespace Prototype

/-- What reading `__proto__` yields. -/
def value : Prototype → JsAny
  | .objectPrototype => .object "Object.prototype" [] true
  | .null => .null
  | .object label properties plain => .object label properties plain

/-- A property of `Object.prototype`, read through an object with this prototype. -/
def inherited (proto : Prototype) (name : String) : JsAny :=
  if name = "__proto__" then proto.value
  else if objectPrototypeFunctions.contains name then .object name [] true
  else .undefined

/-- A property found in the prototype. -/
def get (proto : Prototype) (name : String) : JsAny :=
  match proto with
  | .objectPrototype => proto.inherited name
  | .null => .undefined
  | .object _ properties plain =>
    match properties.lookup name with
    | some value => value
    | none => if plain then proto.inherited name else .undefined

/-- The accessor `__proto__` of `Object.prototype` is inherited. -/
def hasAccessor : Prototype → Bool
  | .objectPrototype => true
  | .null => false
  | .object _ properties plain => plain && (properties.lookup "__proto__").isNone

end Prototype

/-- `class BlockchainHandlerRegistry`: the own properties of `_handlers`, in the order they
    were created in, and its prototype. -/
structure BlockchainHandlerRegistry where
  handlers : List (String × JsAny) := []
  prototype : Prototype := .objectPrototype

/-- The number of an array index, as property names are ordered by. -/
def arrayIndex (name : String) : Option Nat :=
  name.toNat?.filter fun n => n.repr == name && decide (n < 2 ^ 32 - 1)

namespace BlockchainHandlerRegistry

/-- `this._handlers[chainName] = handler`. -/
def register (r : BlockchainHandlerRegistry) (chainName : String) (handler : JsAny) :
    BlockchainHandlerRegistry :=
  if chainName = "__proto__" ∧ (r.handlers.lookup chainName).isNone ∧
      r.prototype.hasAccessor = true then
    -- the inherited setter: an object or `null` becomes the prototype, all else is ignored
    match handler with
    | .object label properties plain => { r with prototype := .object label properties plain }
    | .null => { r with prototype := .null }
    | .undefined => r
    | .primitive _ _ => r
  else { r with handlers := r.handlers.upsert chainName handler }

/-- `this._handlers[chainName]`. -/
def property (r : BlockchainHandlerRegistry) (chainName : String) : JsAny :=
  (r.handlers.lookup chainName).getD (r.prototype.get chainName)

def getHandler (r : BlockchainHandlerRegistry) (chainName : String) : Except JsError JsAny :=
  let handler := r.property chainName
  if handler.truthy then .ok handler
  else .error { message := "No handler registered for blockchain: " ++ chainName }

def supports (r : BlockchainHandlerRegistry) (chainName : String) : Bool :=
  (r.property chainName).truthy

/-- `Object.keys`: array indices first, in ascending order. -/
def getSupportedChains (r : BlockchainHandlerRegistry) : List String :=
  let names := r.handlers.map Prod.fst
  (names.filter fun name => (arrayIndex name).isSome).mergeSort (fun a b =>
      decide ((arrayIndex a).getD 0 ≤ (arrayIndex b).getD 0)) ++
    names.filter fun name => (arrayIndex name).isNone

/-- The registry that a sequence of `register` calls builds. -/
def build (calls : List (String × JsAny)) : BlockchainHandlerRegistry :=
  calls.foldl (fun r call => r.register call.1 call.2) {}

end BlockchainHandlerRegistry

/-- How `POST /ping` goes on, for a caller `validateSecret` lets pass. -/
inductive PingOutcome
  /-- 400, with the lists the body names next to the error. -/
  | badRequest (error : String) (lists : List (String × List String))
  /-- `handler.execute` is called. -/
  | execute (handler : JsAny) (check : Bool) (environment : Environment)
  /-- 500, from the `catch` of the route. -/
  | failed (details : String)
  /-- 500, from the global error handler: the route has not been reached. -/
  | broken

/-- The status of an answer that the route gives by itself. -/
def PingOutcome.status : PingOutcome → Option Nat
  | .badRequest _ _ => some 400
  | .execute _ _ _ => none
  | .failed _ => some 500
  | .broken => some 500

/-- `validEnvironments`. -/
def validEnvironments : List Environment := [.dev, .testnet, .mainnet]

/-- `validEnvironments.includes(env)`, with the network it is. -/
def requestedEnvironment : Option Json → Option Environment
  | some (.string name) => validEnvironments.find? fun environment => environment.name == name
  | _ => none

/-- The handler of `POST /ping`, on the fields it takes from the body. -/
def pingHandler (r : BlockchainHandlerRegistry) (chain check env : Option Json) : PingOutcome :=
  match chain with
  | none => .badRequest "Missing chain parameter" []
  | some chain =>
    if !chain.truthy then .badRequest "Missing chain parameter" []
    else
      match chain.toText with
      -- the conversion of the key throws
      | .error e => .failed e.message
      | .ok name =>
        if !r.supports name then
          .badRequest ("Unsupported chain: " ++ name) [("supportedChains", r.getSupportedChains)]
        else
          match check with
          | none => .badRequest "Missing check parameter" []
          | some (.bool check) =>
            match requestedEnvironment env with
            | none =>
              .badRequest "Invalid or missing environment parameter"
                [("validEnvironments", validEnvironments.map Environment.name)]
            | some environment =>
              match r.getHandler name with
              | .error e => .failed e.message
              | .ok handler => .execute handler check environment
          | some _ => .badRequest "Invalid check parameter: must be boolean" []

/-- `POST /ping`. `express.json()` parses objects and arrays only: any other body is an error
    that goes to the global error handler. -/
def ping (r : BlockchainHandlerRegistry) (body : Json) : PingOutcome :=
  match body with
  | .object _ => pingHandler r (body.field "chain") (body.field "check") (body.field "env")
  | .array _ => pingHandler r (body.field "chain") (body.field "check") (body.field "env")
  | _ => .broken

end ContractPinger
