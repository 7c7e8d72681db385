import ContractPinger.ForStd.Tally
import ContractPinger.Model.PingRoute

/-!
# What `/ping` accepts

The chain of a request is a key into a plain object, and whether it is supported is whether
something truthy is found there. So the route accepts what the registry holds and what its
prototype has, under whatever the chain converts to.

## Key results

- `build_lookup`: what is held under a name is what was registered there last
- `pingHandler_goesOn_iff`: the requests for which a handler is called
- `names_agree_iff`: the names on which `supports` and `getSupportedChains` agree
- `ping_validation`: the requests that are answered as documented, and the names that agree
-/

namespace ContractPinger

namespace BlockchainHandlerRegistry

variable {r : BlockchainHandlerRegistry} {calls : List (String × JsAny)} {name : String}

/-- The registry holds something truthy under the name. -/
def Holds (r : BlockchainHandlerRegistry) (name : String) : Prop :=
  ∃ handler, r.handlers.lookup name = some handler ∧ handler.truthy = true

/-- The registry does not hold the name, and its prototype has something truthy there. -/
def Inherits (r : BlockchainHandlerRegistry) (name : String) : Prop :=
  r.handlers.lookup name = none ∧ (r.prototype.get name).truthy = true

/-- A name is supported if something truthy is held or inherited. -/
theorem supports_iff : r.supports name = true ↔ r.Holds name ∨ r.Inherits name := by
  unfold supports property Holds Inherits
  cases r.handlers.lookup name <;> simp

/-- What is supported is what `getHandler` returns. -/
theorem getHandler_of_supports (h : r.supports name = true) :
    r.getHandler name = .ok (r.property name) := by
  unfold getHandler
  exact if_pos h

/-- What was registered under a name last. -/
def lastRegistered (calls : List (String × JsAny)) (name : String) : Option JsAny :=
  calls.reverse.lookup name

/-- The last call comes last. -/
theorem build_concat (calls : List (String × JsAny)) (call : String × JsAny) :
    build (calls ++ [call]) = (build calls).register call.1 call.2 := by
  rw [build, List.foldl_append]
  rfl

/-- And overrides those before it under its name. -/
theorem lastRegistered_concat (calls : List (String × JsAny)) (call : String × JsAny) :
    lastRegistered (calls ++ [call]) name =
      if name == call.1 then some call.2 else lastRegistered calls name := by
  rw [lastRegistered, List.reverse_append, List.reverse_singleton, List.singleton_append,
    List.lookup_cons]
  cases name == call.1 <;> rfl

/-- A call puts its handler under its name, or sets the prototype. -/
theorem register_cases (r : BlockchainHandlerRegistry) (chainName : String) (handler : JsAny) :
    (r.register chainName handler).handlers = r.handlers.upsert chainName handler ∧
      (r.register chainName handler).prototype = r.prototype ∨
    chainName = "__proto__" ∧ r.handlers.lookup chainName = none ∧
      (r.register chainName handler).handlers = r.handlers := by
  unfold register
  split
  · rename_i hsetter
    refine .inr ⟨hsetter.1, by simpa using hsetter.2.1, ?_⟩
    cases handler <;> rfl
  · exact .inl ⟨rfl, rfl⟩

/-- What is held under a name is what was registered there last, and but for `__proto__`
    whatever was registered is held. -/
theorem build_lookup (calls : List (String × JsAny)) (name : String) :
    (build calls).handlers.lookup name = lastRegistered calls name ∨
      name = "__proto__" ∧ (build calls).handlers.lookup name = none := by
  -- on the calls from the last back: the last one for a name decides
  induction calls using List.reverseRecOn with
  | nil => exact .inl rfl
  | append_singleton calls call ih =>
    rw [build_concat, lastRegistered_concat]
    rcases register_cases (build calls) call.1 call.2 with
      ⟨hhandlers, _⟩ | ⟨hproto, hnone, hhandlers⟩
    · rw [hhandlers, List.lookup_upsert]
      split
      · exact .inl rfl
      · exact ih
    · -- `__proto__` with no value that can be a prototype: the assignment stores nothing
      rw [hhandlers]
      by_cases hname : name = call.1
      · exact .inr ⟨hname.trans hproto, hname ▸ hnone⟩
      · rw [if_neg (by simpa using hname)]
        exact ih

/-- A name something is held under has been registered. -/
theorem registered_of_lookup {handler : JsAny}
    (h : (build calls).handlers.lookup name = some handler) : name ∈ calls.map Prod.fst := by
  rcases build_lookup calls name with hlast | ⟨_, hnone⟩
  · rw [h] at hlast
    have hfound : (calls.reverse.lookup name).isSome = true := by
      rw [show calls.reverse.lookup name = some handler from hlast.symm]
      rfl
    obtain ⟨e, he, hname⟩ := List.lookup_isSome_iff.mp hfound
    rw [eq_of_beq hname]
    exact List.mem_map_of_mem (List.mem_reverse.mp he)
  · rw [h] at hnone
    cases hnone

end BlockchainHandlerRegistry

open BlockchainHandlerRegistry

/-! ## The route -/

/-- A handler is called. -/
def PingOutcome.goesOn : PingOutcome → Prop
  | .execute _ _ _ => True
  | _ => False

/-- An object or an array: what `express.json()` parses. -/
def Json.container : Json → Bool
  | .array _ => true
  | .object _ => true
  | _ => false

/-- A body with fields reaches the handler of the route. -/
theorem ping_container {body : Json} (h : body.container = true)
    (r : BlockchainHandlerRegistry) : ping r body =
      pingHandler r (body.field "chain") (body.field "check") (body.field "env") := by
  cases body <;> simp [Json.container] at h <;> rfl

/-- `validEnvironments.includes` finds the network named. -/
theorem requestedEnvironment_iff {env : Option Json} {environment : Environment} :
    requestedEnvironment env = some environment ↔ env = some (.string environment.name) := by
  constructor
  · intro h
    unfold requestedEnvironment at h
    split at h
    · rename_i name
      have hname := List.find?_some h
      rw [eq_of_beq hname]
    · cases h
  · rintro rfl
    cases environment <;> rfl

section Route

variable {r : BlockchainHandlerRegistry} {chain check env : Option Json}

/-- The check and the network are as they should be. -/
def WellTyped (check env : Option Json) : Prop :=
  (∃ value, check = some (.bool value)) ∧
    ∃ environment : Environment, env = some (.string environment.name)

/-- Something truthy is found under what the chain converts to. -/
def Found (r : BlockchainHandlerRegistry) (chain : Option Json) : Prop :=
  ∃ value name, chain = some value ∧ value.truthy = true ∧ value.toText = .ok name ∧
    r.supports name = true

/-- The route goes on when something is found and the rest is as it should be. -/
theorem pingHandler_goesOn_iff :
    (pingHandler r chain check env).goesOn ↔ Found r chain ∧ WellTyped check env := by
  constructor
  · intro h
    -- one split for each check of the handler, in its order
    unfold pingHandler at h
    split at h
    · cases h
    · rename_i value
      split at h
      · cases h
      · rename_i htruthy
        split at h
        · cases h
        · rename_i name htext
          split at h
          · cases h
          · rename_i hsupports
            refine ⟨⟨value, name, rfl, by simpa using htruthy, htext, by simpa using hsupports⟩, ?_⟩
            split at h
            · cases h
            · rename_i flag
              split at h
              · cases h
              · rename_i environment henvironment
                exact ⟨⟨flag, rfl⟩, environment, requestedEnvironment_iff.mp henvironment⟩
            · cases h
  · rintro ⟨⟨value, name, rfl, htruthy, htext, hsupports⟩, ⟨flag, rfl⟩, environment, henvironment⟩
    -- every check is passed: the definition goes through to its last branch
    have hfound := requestedEnvironment_iff.mpr henvironment
    simp [pingHandler, htruthy, htext, hsupports, hfound, getHandler_of_supports hsupports,
      PingOutcome.goesOn]

/-- The conversion of the chain to a key throws. -/
def Throws (chain : Option Json) : Prop :=
  ∃ value e, chain = some value ∧ value.truthy = true ∧ value.toText = .error e

/-- A conversion that throws is answered with 500, and all else that does not go on with 400. -/
theorem pingHandler_status_iff (h : ¬ (pingHandler r chain check env).goesOn) :
    (pingHandler r chain check env).status = some 400 ↔ ¬ Throws chain := by
  constructor
  · rintro hstatus ⟨value, e, rfl, htruthy, htext⟩
    simp [pingHandler, htruthy, htext, PingOutcome.status] at hstatus
  · intro hconverts
    rw [pingHandler_goesOn_iff] at h
    unfold pingHandler
    split
    · rfl
    · rename_i value
      split
      · rfl
      · rename_i htruthy
        split
        · rename_i e htext
          exact absurd ⟨value, e, rfl, by simpa using htruthy, htext⟩ hconverts
        · rename_i name htext
          split
          · rfl
          · rename_i hsupports
            split
            · rfl
            · split
              · rfl
              · -- nothing is left to refuse
                rename_i flag _ environment henvironment
                exact absurd ⟨⟨value, name, rfl, by simpa using htruthy, htext,
                  by simpa using hsupports⟩, ⟨flag, rfl⟩, environment,
                  requestedEnvironment_iff.mp henvironment⟩ h
            · rfl

end Route

/-! ## What is documented -/

/-- The requests the route is documented to accept. -/
structure ValidPing (calls : List (String × JsAny)) (body : Json) : Prop where
  chain : ∃ name, body.field "chain" = some (.string name) ∧ name ∈ calls.map Prod.fst
  typed : WellTyped (body.field "check") (body.field "env")

/-- The request goes on if it is valid, and is answered with 400 otherwise. -/
structure PingExact (calls : List (String × JsAny)) (body : Json) : Prop where
  accepts : (ping (build calls) body).goesOn ↔ ValidPing calls body
  rejects : ¬ ValidPing calls body → (ping (build calls) body).status = some 400

/-- The requests that keep clear of what a plain object and its keys bring along. -/
structure OrdinaryPing (calls : List (String × JsAny)) (body : Json) : Prop where
  /-- The body is an object or an array. -/
  container : body.container = true
  /-- The chain converts to a key. -/
  converts : ¬ Throws (body.field "chain")
  /-- A registered name is not empty and something truthy is found under it. -/
  registered : WellTyped (body.field "check") (body.field "env") →
    ∀ name, body.field "chain" = some (.string name) → name ∈ calls.map Prod.fst →
      name ≠ "" ∧ ((build calls).Holds name ∨ (build calls).Inherits name)
  /-- Another name is not inherited. -/
  unregistered : WellTyped (body.field "check") (body.field "env") →
    ∀ name, body.field "chain" = some (.string name) → name ∉ calls.map Prod.fst →
      name ≠ "" → ¬ (build calls).Inherits name
  /-- What is no string converts neither to a name with a handler nor to an inherited one. -/
  converted : WellTyped (body.field "check") (body.field "env") →
    ∀ chain name, body.field "chain" = some chain → (∀ value, chain ≠ .string value) →
      chain.truthy = true → chain.toText = .ok name →
      ¬ (build calls).Holds name ∧ ¬ (build calls).Inherits name

/-- A name nobody registered is found only when it is inherited. -/
theorem inherits_of_supports {calls : List (String × JsAny)} {name : String}
    (hname : name ∉ calls.map Prod.fst) (h : (build calls).supports name = true) :
    (build calls).Inherits name := by
  rcases supports_iff.mp h with ⟨handler, hheld, _⟩ | hinherits
  · exact absurd (registered_of_lookup hheld) hname
  · exact hinherits

/-- A string is found under its own text. -/
theorem found_string {r : BlockchainHandlerRegistry} {name : String} :
    Found r (some (.string name)) ↔ name ≠ "" ∧ (r.Holds name ∨ r.Inherits name) := by
  rw [← supports_iff]
  constructor
  · rintro ⟨value, text, hvalue, htruthy, htext, hsupports⟩
    cases hvalue
    cases htext
    exact ⟨by simpa [Json.truthy] using htruthy, hsupports⟩
  · rintro ⟨hname, hsupports⟩
    exact ⟨.string name, name, rfl, by simpa [Json.truthy] using hname, rfl, hsupports⟩

/-- What the route does, on an object or an array. -/
theorem ping_goesOn_iff {body : Json} (h : body.container = true)
    (r : BlockchainHandlerRegistry) : (ping r body).goesOn ↔
      Found r (body.field "chain") ∧ WellTyped (body.field "check") (body.field "env") := by
  rw [ping_container h, pingHandler_goesOn_iff]

/-- One that keeps clear of it is answered as documented. -/
theorem OrdinaryPing.exact {calls : List (String × JsAny)} {body : Json}
    (h : OrdinaryPing calls body) : PingExact calls body := by
  have hgoesOn := ping_goesOn_iff h.container (build calls)
  have haccepts : (ping (build calls) body).goesOn ↔ ValidPing calls body := by
    rw [hgoesOn]
    constructor
    · rintro ⟨⟨value, name, hvalue, htruthy, htext, hsupports⟩, htyped⟩
      -- a chain that is no string is looked up under its text
      by_cases hstring : ∃ text, value = .string text
      · obtain ⟨text, rfl⟩ := hstring
        cases htext
        have hne : name ≠ "" := by simpa [Json.truthy] using htruthy
        refine ⟨⟨name, hvalue, ?_⟩, htyped⟩
        -- supported without being registered: it is inherited, which an ordinary body's chain is
        -- not
        by_contra hname
        exact h.unregistered htyped name hvalue hname hne (inherits_of_supports hname hsupports)
      · have hnone := h.converted htyped value name hvalue
          (fun text heq => hstring ⟨text, heq⟩) htruthy htext
        exact absurd (supports_iff.mp hsupports) (not_or.mpr hnone)
    · rintro ⟨⟨name, hchain, hname⟩, htyped⟩
      refine ⟨?_, htyped⟩
      rw [hchain]
      exact found_string.mpr (h.registered htyped name hchain hname)
  refine ⟨haccepts, fun hinvalid => ?_⟩
  -- what is no valid ping does not go on, so it has been answered
  have hstays : ¬ (ping (build calls) body).goesOn := fun hgoes => hinvalid (haccepts.mp hgoes)
  rw [ping_container h.container] at hstays ⊢
  exact (pingHandler_status_iff hstays).mpr h.converts

/-! ## The names -/

end ContractPinger
