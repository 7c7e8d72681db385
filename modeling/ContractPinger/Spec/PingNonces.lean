import ContractPinger.ForStd.Machine
import ContractPinger.Model.EvmTransactions

/-!
# Nonces of concurrent `/ping` requests

A request reads its nonce and submits with it in separate steps. The pending count includes
what was submitted, not what other requests have read and are still to submit with, so two
requests on one account can be given one nonce. This file proves that this is the only way
two transactions of an account come to share a nonce.

## Key results

- `claims_step_iff`: a step keeps the nonces claimed so far distinct unless it hands out one
  that is claimed
- `flush`: every claimed nonce can end up submitted
- `nonces_distinct_iff`: no nonce is submitted twice, however a run goes on, exactly when no
  read of the run is answered with a claimed nonce
-/

namespace ContractPinger

open Machine

/-- A nonce of an account. -/
abbrev NonceClaim := ChainAccount × Nat

/-- The nonce a transaction has used up. -/
def SubmittedTx.claim (tx : SubmittedTx) : NonceClaim := (tx.account, tx.args.nonce)

/-- The nonce a request has read and is still to submit with. -/
def PingRequest.claim? (r : PingRequest) : Option NonceClaim :=
  match r.pc with
  | .submitting args => some (r.account, args.nonce)
  | _ => none

namespace PingService

variable {s : PingSetup} {service after : PingService}

/-- The nonces submitted with. -/
def used (service : PingService) : List NonceClaim := service.submitted.map SubmittedTx.claim

/-- The nonces still to be submitted with. -/
def held (service : PingService) : List NonceClaim :=
  service.requests.filterMap PingRequest.claim?

/-- However the requests in flight go on to submit, no two transactions of an account carry
    the same nonce. -/
def NoncesDistinct (s : PingSetup) (service : PingService) : Prop :=
  ∀ (requests : List Nat) (after : PingService),
    exec (step s) service (requests.map PingAction.submit) = some after →
      (after.submitted.map fun tx => (tx.account, tx.args.nonce)).Nodup

/-- A read is answered with a nonce that another request of the account has read and is
    still to submit with. -/
def HandsOutHeld (service : PingService) : PingAction → Prop
  | .pendingCount request (.ok count) =>
    ∃ r ∈ service.requests[request]?, (r.account, count) ∈ service.held
  | _ => False

/-! ## What a step does to the claims -/

/-- The claims of the requests: that of one of them, and those of the others. -/
theorem held_perm {request : Nat} {r : PingRequest} (h : service.requests[request]? = some r) :
    service.held.Perm
      (r.claim?.toList ++ (service.requests.eraseIdx request).filterMap PingRequest.claim?) := by
  obtain ⟨hlt, hget⟩ := List.getElem?_eq_some_iff.mp h
  have hperm := List.getElem_cons_eraseIdx_perm hlt
  rw [hget] at hperm
  refine (hperm.symm.filterMap PingRequest.claim?).trans ?_
  rw [List.filterMap_cons]
  cases r.claim? <;> exact List.Perm.refl _

/-- The claims after one request has gone on. -/
theorem held_goOn {request : Nat} {r : PingRequest} (h : service.requests[request]? = some r)
    (pc : PingPc) :
    (service.goOn request r pc).held.Perm
      (({ r with pc } : PingRequest).claim?.toList ++
        (service.requests.eraseIdx request).filterMap PingRequest.claim?) := by
  obtain ⟨hlt, -⟩ := List.getElem?_eq_some_iff.mp h
  have hset : (service.goOn request r pc).requests[request]? = some { r with pc } :=
    List.getElem?_set_self hlt
  have hperm := held_perm hset
  have hrest : (service.goOn request r pc).requests.eraseIdx request =
      service.requests.eraseIdx request := List.eraseIdx_set_eq
  rwa [hrest] at hperm

/-- A request that goes on without a nonce gives up the one it may have had. -/
theorem held_of_given_up {request : Nat} {r : PingRequest}
    (h : service.requests[request]? = some r) {pc : PingPc}
    (hpc : ({ r with pc } : PingRequest).claim? = none) :
    ∃ gone, service.held.Perm (gone ++ (service.goOn request r pc).held) := by
  have hafter := held_goOn h pc
  rw [hpc, Option.toList_none, List.nil_append] at hafter
  exact ⟨r.claim?.toList, (held_perm h).trans (hafter.symm.append_left _)⟩

/-- A new request holds no nonce yet. -/
theorem execute_held (environment : Environment) (checkSignature : Bool) :
    (service.execute s environment checkSignature).held = service.held := by
  unfold execute held
  dsimp only
  rw [List.filterMap_append]
  split
  · simp [PingRequest.claim?]
  · split <;> simp [PingRequest.claim?]

/-- Submitting uses up a held nonce. -/
theorem submit_claims {request : Nat}
    (hs : service.step s (.submit request) = some after) :
    ∃ claim, after.used = service.used ++ [claim] ∧ service.held.Perm (claim :: after.held) := by
  simp only [step, Option.bind_eq_some_iff] at hs
  obtain ⟨r, hr, hs⟩ := hs
  split at hs
  · rename_i args hpc
    cases hs
    refine ⟨(r.account, args.nonce), List.map_append, ?_⟩
    -- what was held as a claim becomes what is used
    have hclaim : r.claim? = some (r.account, args.nonce) := by
      simp [PingRequest.claim?, hpc]
    have hbefore := held_perm hr
    rw [hclaim] at hbefore
    exact hbefore.trans ((held_goOn hr (.submitted args)).symm.cons _)
  · cases hs

/-- What a step does to the nonces claimed: it gives up held ones, or none at all; it uses
    up a held one; or it hands out one that is not used. -/
theorem step_claims {a : PingAction} (hs : service.step s a = some after) :
    (after.used = service.used ∧ (∃ gone, service.held.Perm (gone ++ after.held)) ∧
        ¬ service.HandsOutHeld a) ∨
      (∃ claim, after.used = service.used ++ [claim] ∧
        service.held.Perm (claim :: after.held) ∧ ¬ service.HandsOutHeld a) ∨
      ∃ claim, after.used = service.used ∧ after.held.Perm (claim :: service.held) ∧
        claim ∉ service.used ∧ (service.HandsOutHeld a ↔ claim ∈ service.held) := by
  cases a with
  | execute environment checkSignature =>
    cases hs
    have hsame := @execute_held s service environment checkSignature
    exact .inl ⟨rfl, ⟨[], by rw [hsame]; exact List.Perm.refl _⟩, id⟩
  | fees request answer =>
    simp only [step, Option.bind_eq_some_iff] at hs
    -- either answer leaves the request without a nonce
    obtain ⟨r, hr, hs⟩ := hs
    split at hs <;> cases hs
    · exact .inl ⟨rfl, held_of_given_up hr rfl, id⟩
    · exact .inl ⟨rfl, held_of_given_up hr rfl, id⟩
  | pendingCount request answer =>
    simp only [step, Option.bind_eq_some_iff] at hs
    obtain ⟨r, hr, hs⟩ := hs
    split at hs
    · rename_i fees count hpc
      simp only [Option.ite_none_right_eq_some, Option.some.injEq] at hs
      obtain ⟨hcounts, rfl⟩ := hs
      -- the answer becomes the nonce the request holds
      refine .inr (.inr ⟨(r.account, count), rfl, ?_, ?_, ?_⟩)
      · have hnone : r.claim? = none := by simp [PingRequest.claim?, hpc]
        have hbefore := held_perm hr
        rw [hnone, Option.toList_none, List.nil_append] at hbefore
        exact (held_goOn hr _).trans (hbefore.symm.cons _)
      · -- the count includes every transaction sent from the account
        intro hused
        obtain ⟨tx, htx, hclaim⟩ := List.mem_map.mp hused
        have hcounted := List.all_eq_true.mp hcounts tx htx
        obtain ⟨haccount, hnonce⟩ := Prod.mk.inj hclaim
        rw [haccount, hnonce] at hcounted
        simp at hcounted
      · simp [HandsOutHeld, hr]
    · cases hs
      exact .inl ⟨rfl, held_of_given_up hr rfl, id⟩
    · cases hs
  -- only here does a nonce get used up
  | submit request =>
    obtain ⟨claim, hused, hheld⟩ := submit_claims hs
    exact .inr (.inl ⟨claim, hused, hheld, id⟩)
  | settle request outcome =>
    simp only [step, Option.bind_eq_some_iff] at hs
    obtain ⟨r, hr, hs⟩ := hs
    split at hs <;> cases hs
    · exact .inl ⟨rfl, held_of_given_up hr rfl, id⟩
    · exact .inl ⟨rfl, held_of_given_up hr rfl, id⟩

/-! ## Distinct claims -/

/-- The nonces claimed: used up, or held. -/
def claims (service : PingService) : List NonceClaim := service.used ++ service.held

/-- A step keeps the nonces claimed so far distinct unless it hands out one that is held. -/
theorem claims_step_iff {a : PingAction} (h : service.claims.Nodup)
    (hs : service.step s a = some after) :
    after.claims.Nodup ↔ ¬ service.HandsOutHeld a := by
  unfold claims at h ⊢
  rcases step_claims hs with ⟨hused, ⟨gone, hheld⟩, hno⟩ | ⟨claim, hused, hheld, hno⟩ |
    ⟨claim, hused, hheld, hfresh, hiff⟩
  · -- nothing new is claimed
    rw [hused]
    refine iff_of_true ?_ hno
    have hall := (hheld.append_left service.used).nodup_iff.mp h
    exact hall.sublist ((List.sublist_append_right gone _).append_left _)
  · -- a held nonce becomes a used one: the claims are the same
    rw [hused, List.append_assoc, List.singleton_append]
    exact iff_of_true ((hheld.append_left service.used).nodup_iff.mp h) hno
  · -- one nonce more, which is not among the used ones
    rw [hused, (hheld.append_left service.used).nodup_iff, List.nodup_middle, List.nodup_cons,
      hiff]
    simp [hfresh, h]

/-- Whoever holds a nonce can submit. -/
theorem exists_submit (s : PingSetup) (h : service.held ≠ []) :
    ∃ request after, service.step s (.submit request) = some after := by
  obtain ⟨claim, hclaim⟩ := List.exists_mem_of_ne_nil _ h
  obtain ⟨r, hr, hheld⟩ := List.mem_filterMap.mp hclaim
  obtain ⟨request, hget⟩ := List.mem_iff_getElem?.mp hr
  unfold PingRequest.claim? at hheld
  split at hheld
  · rename_i args hpc
    have hstep : service.step s (.submit request) =
        some { service.goOn request r (.submitted args) with
          submitted := service.submitted ++ [{ account := r.account, args }] } := by
      simp only [step, hget, Option.bind_some, hpc]
    exact ⟨request, _, hstep⟩
  · cases hheld

/-- Every claimed nonce can end up used: the requests that hold one submit in turn. -/
theorem flush (s : PingSetup) (service : PingService) :
    ∃ (requests : List Nat) (after : PingService),
      exec (step s) service (requests.map PingAction.submit) = some after ∧
        after.used.Perm service.claims := by
  -- by induction on how many nonces are held: each submission leaves one less
  generalize hcount : service.held.length = count
  induction count generalizing service with
  | zero =>
    have hnil : service.held = [] := List.length_eq_zero_iff.mp hcount
    refine ⟨[], service, rfl, ?_⟩
    rw [claims, hnil, List.append_nil]
  | succ count ih =>
    have hsome : service.held ≠ [] := List.ne_nil_of_length_eq_add_one hcount
    obtain ⟨request, next, hstep⟩ := exists_submit s hsome
    obtain ⟨claim, hused, hheld⟩ := submit_claims hstep
    have hlength := hheld.length_eq
    rw [hcount, List.length_cons] at hlength
    obtain ⟨requests, after, hexec, hperm⟩ := ih next (by omega)
    refine ⟨request :: requests, after, ?_, ?_⟩
    · rw [List.map_cons, exec, hstep]
      exact hexec
    · -- the nonce has moved from the held ones to the used ones
      rw [claims, hused, List.append_assoc, List.singleton_append] at hperm
      exact hperm.trans (hheld.symm.append_left service.used)

/-- No two transactions can come to share a nonce exactly when the claims are distinct. -/
theorem noncesDistinct_iff : NoncesDistinct s service ↔ service.claims.Nodup := by
  constructor
  · intro h
    -- let everyone submit: what is used then is all that is claimed now
    obtain ⟨requests, after, hexec, hperm⟩ := flush s service
    exact hperm.nodup_iff.mp (h requests after hexec)
  · intro h requests after hexec
    -- submitting hands nothing out, so the claims stay distinct on the way
    have hclaims : after.claims.Nodup := by
      induction requests generalizing service with
      | nil =>
        simp only [List.map_nil, exec, Option.some.injEq] at hexec
        exact hexec ▸ h
      | cons request rest ih =>
        simp only [List.map_cons, exec, Option.bind_eq_some_iff] at hexec
        obtain ⟨next, hstep, hrest⟩ := hexec
        exact ih ((claims_step_iff h hstep).mpr id) hrest
    exact hclaims.of_append_left

/-! ## Whole runs -/

/-- In every state of a run, however the requests in flight go on to submit, no two
    transactions of an account carry the same nonce, exactly when no read of the run is
    answered with a nonce that another request of the account holds. -/
theorem nonces_distinct_iff (s : PingSetup) (actions : List PingAction) :
    Always (step s) (NoncesDistinct s) {} actions ↔
      Along (step s) (fun service a => ¬ service.HandsOutHeld a) {} actions := by
  -- the claims are the invariant that a step keeps exactly when it hands out no held nonce
  apply always_iff_along
  · intro service a after h hs
    rw [noncesDistinct_iff] at h ⊢
    exact claims_step_iff h hs
  · rw [noncesDistinct_iff]
    exact List.nodup_nil

/-- One key in all five slots. -/
def oneKeySetup : PingSetup where
  env := { ethRpcUrlSepolia := "http://localhost:8545" }
  libs :=
    { contractAddress := fun _ => ""
      publicKeyOf := .ok
      deriveAddress := fun _ _ _ _ _ => ""
      getRequestIdBidirectional := fun _ => ""
      finalizeTransactionSigning := fun _ _ => .ok ""
      serializeTransaction := fun _ => ""
      keccak256 := id
      recoverAddress := fun _ _ _ _ => .ok ""
      getAddress := .ok
      encodeTransfer := fun _ _ => ""
      createPublicClient := fun _ _ => .ok ()
      newPublicKey := fun _ => .ok ()
      privateKeyToAccount := .ok }
  evmSk := fun _ => some "0xkey"

/-- Two requests read the pending count, and then submit. -/
def concurrentPings : List PingAction :=
  [.execute .dev false, .execute .dev false,
   .fees 0 (.ok { maxFeePerGas := 10, maxPriorityFeePerGas := 1 }),
   .fees 1 (.ok { maxFeePerGas := 10, maxPriorityFeePerGas := 1 }),
   .pendingCount 0 (.ok 7), .pendingCount 1 (.ok 7), .submit 0, .submit 1]

/-- Both transactions carry the nonce 7. -/
theorem concurrent_pings_collide :
    (exec (step oneKeySetup) {} concurrentPings).map (fun service => service.submitted) =
      some (List.replicate 2
        { account := { chainId := 11155111, address := "0xkey" }
          args := { maxFeePerGas := 12, maxPriorityFeePerGas := 1, nonce := 7 } }) ∧
    ¬ Always (step oneKeySetup) (NoncesDistinct oneKeySetup) {} concurrentPings := by
  have hrun : (exec (step oneKeySetup) {} concurrentPings).map (fun service => service.submitted) =
      some (List.replicate 2
        { account := { chainId := 11155111, address := "0xkey" }
          args := { maxFeePerGas := 12, maxPriorityFeePerGas := 1, nonce := 7 } }) := by
    decide +kernel
  refine ⟨hrun, fun h => ?_⟩
  obtain ⟨after, hexec, hsubmitted⟩ := Option.map_eq_some_iff.mp hrun
  have hdistinct := h.last hexec [] after rfl
  rw [hsubmitted] at hdistinct
  exact absurd hdistinct (by decide)

end PingService

end ContractPinger
