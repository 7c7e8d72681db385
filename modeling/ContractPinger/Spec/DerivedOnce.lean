import ContractPinger.Spec.Addresses

/-!
# One derivation at a time, applied whole or not at all

Callers of `ensureAddresses` share the memoized promise, and only the `catch` of the
derivation behind it clears the memo. `DerivationMove` says what a step can do to the
derivations; everything below is read off it.

## Key results

- `step_derivationMove`: what a step does to the derivations, the memo and the addresses
- `outcome_reachable`: a promise that has settled keeps its outcome
- `derives_once`: at most one derivation in flight, none after a success, and no caller
  ahead of the addresses
-/

namespace ContractPinger

open Machine

/-- The promise of the derivation is pending. -/
def Derivation.inFlight : Derivation → Bool
  | .deriving _ _ _ => true
  | .failing _ => true
  | _ => false

/-- A derivation in flight is not dropped. -/
theorem Derivation.dropped_of_inFlight {d : Derivation} (h : d.inFlight = true) :
    d.dropped = false := by
  cases d <;> simp_all [inFlight, dropped]

/-- Nor is it fulfilled. -/
theorem Derivation.ne_fulfilled_of_inFlight {d : Derivation} (h : d.inFlight = true) :
    d ≠ .fulfilled := by
  rintro rfl
  cases h

/-- It is in flight until it has an outcome. -/
theorem Derivation.inFlight_iff {d : Derivation} : d.inFlight = true ↔ d.outcome = none := by
  cases d <;> simp [inFlight, outcome]

namespace World

/-- What a step does to the derivations, the memo and the addresses. -/
inductive DerivationMove (w w' : World) : Prop
  | quiet (derivations : w'.derivations = w.derivations)
      (ready : w'.addressesReady = w.addressesReady) (book : w'.pool.book = w.pool.book)
  /-- A call found no memo. -/
  | begin (d : Derivation) (inFlight : d.inFlight = true) (none : w.addressesReady = none)
      (derivations : w'.derivations = w.derivations ++ [d]) (pool : w'.pool = w.pool)
  /-- The derivation goes on, or its `catch` is next. -/
  | advance (i : Nat) (d d' : Derivation) (current : w.derivations[i]? = some d)
      (inFlight : d.inFlight = true) (inFlight' : d'.inFlight = true)
      (derivations : w'.derivations = w.derivations.set i d') (pool : w'.pool = w.pool)
  | fulfil (i : Nat) (d : Derivation) (current : w.derivations[i]? = some d)
      (inFlight : d.inFlight = true) (derivations : w'.derivations = w.derivations.set i .fulfilled)
  /-- The `catch`. -/
  | reject (i : Nat) (e : JsError) (current : w.derivations[i]? = some (.failing e))
      (derivations : w'.derivations = w.derivations.set i (.rejected e))
      (ready : w'.addressesReady = none) (pool : w'.pool = w.pool)

/-- The rest of the state does not matter. -/
theorem DerivationMove.congr {w w' v v' : World} (h : DerivationMove w w')
    (derivations : v.derivations = w.derivations) (ready : v.addressesReady = w.addressesReady)
    (pool : v.pool = w.pool) (derivations' : v'.derivations = w'.derivations)
    (ready' : v'.addressesReady = w'.addressesReady) (pool' : v'.pool = w'.pool) :
    DerivationMove v v' := by
  cases h with
  | quiet hd hr hb =>
    exact .quiet (by rw [derivations', derivations, hd]) (by rw [ready', ready, hr])
      (by rw [pool', pool, hb])
  | begin d hf hn hd hp =>
    exact .begin d hf (by rw [ready, hn]) (by rw [derivations', derivations, hd])
      (by rw [pool', pool, hp])
  | advance i d d' hc hf hf' hd hp =>
    exact .advance i d d' (by rw [derivations, hc]) hf hf' (by rw [derivations', derivations, hd])
      (by rw [pool', pool, hp])
  | fulfil i d hc hf hd =>
    exact .fulfil i d (by rw [derivations, hc]) hf (by rw [derivations', derivations, hd])
  | reject i e hc hd hr hp =>
    exact .reject i e (by rw [derivations, hc]) (by rw [derivations', derivations, hd])
      (by rw [ready', hr]) (by rw [pool', pool, hp])

/-- A call joins the derivation the memo names, or begins one. -/
theorem ensureAddresses_move (w : World) (s : Setup) :
    DerivationMove w (w.ensureAddresses s).1 := by
  rcases ensureAddresses_cases w s with hsame | ⟨hnone, d, hd, hjoined⟩
  · rw [hsame]
    exact .quiet rfl rfl rfl
  · have hflight : d.inFlight = true := by
      rcases hd with ⟨e, rfl⟩ | ⟨solana, _, rfl⟩ <;> rfl
    rw [hjoined]
    exact .begin d hflight hnone rfl rfl

/-- What a step does to the derivations, the memo and the addresses, for every step. -/
theorem step_derivationMove {s : Setup} {w w' : World} {a : Action}
    (hstep : step s w a = some w') : DerivationMove w w' := by
  cases a with
  | start mode =>
    cases hstep
    unfold World.start
    dsimp only
    split
    · exact .quiet rfl rfl rfl
    · -- the record is made before the memo is looked at
      let accepted : World :=
        { w with
          jobs := w.jobs.create w.frames.length s.environment mode w.now
          history := w.history ++ [.started w.frames.length w.now] }
      exact (ensureAddresses_move accepted s).congr rfl rfl rfl rfl rfl rfl
  | getWorkers =>
    cases hstep
    exact (ensureAddresses_move w s).congr rfl rfl rfl rfl rfl rfl
  | resume job reply =>
    obtain ⟨_, _, _, _, _, rfl⟩ := step_resume hstep
    exact .quiet (performAll_derivations _ _ _) (performAll_addressesReady _ _ _)
      (performAll_book _ _ _)
  | resumeRequest request reply =>
    obtain ⟨_, _, _, _, _, rfl⟩ := step_resumeRequest hstep
    exact .quiet (performAll_derivations _ _ _) (performAll_addressesReady _ _ _)
      (performAll_book _ _ _)
  | resumeDerivation index reply =>
    simp only [step, Option.bind_eq_some_iff] at hstep
    obtain ⟨d, hd, hresume⟩ := hstep
    unfold World.resumeDerivation at hresume
    split at hresume <;> cases hresume
    · exact .advance index _ _ hd rfl rfl rfl rfl
    · exact .advance index _ _ hd rfl rfl rfl rfl
    · exact .fulfil index _ hd rfl rfl
    · exact .reject index _ hd rfl rfl rfl
  | expire job =>
    obtain ⟨_, rfl⟩ := step_expire hstep
    exact .quiet rfl rfl
      (WorkerPool.book_congr (WorkerPool.LeasesOnly.expire w.pool job).standing)
  | respondDeadline job =>
    obtain ⟨_, _, _, rfl⟩ := step_respondDeadline hstep
    exact .quiet rfl rfl rfl
  | abortActiveJobs =>
    cases hstep
    exact .quiet rfl rfl (WorkerPool.book_congr (WorkerPool.LeasesOnly.rejectWaiters w.pool
      (.other { message := "Process is shutting down" })).standing)
  | clock now =>
    cases hstep
    exact .quiet rfl rfl rfl

/-! ## Outcomes -/

/-- A promise that has settled is not settled again. -/
theorem outcome_step {s : Setup} {w w' : World} {a : Action} (hstep : step s w a = some w')
    {i : Nat} {outcome : Except JsError Unit} (h : w.derived i = some outcome) :
    w'.derived i = some outcome := by
  obtain ⟨d, hd, houtcome⟩ := Option.bind_eq_some_iff.mp h
  -- only a derivation in flight is replaced, and this one is not
  have hkeep : ∀ (j : Nat) (e e' : Derivation), w.derivations[j]? = some e → e.inFlight = true →
      w'.derivations = w.derivations.set j e' → w'.derived i = some outcome := by
    intro j e e' he hflight hset
    have hne : j ≠ i := by
      rintro rfl
      cases he.symm.trans hd
      rw [Derivation.inFlight_iff.mp hflight] at houtcome
      cases houtcome
    rw [derived, hset, List.getElem?_set_ne hne]
    exact h
  cases step_derivationMove hstep with
  | quiet hderivations =>
    rw [derived, hderivations]
    exact h
  | begin d' _ _ hderivations =>
    have hlt : i < w.derivations.length := (List.getElem?_eq_some_iff.mp hd).1
    rw [derived, hderivations, List.getElem?_append_left hlt]
    exact h
  | advance j e e' he hflight _ hset => exact hkeep j e e' he hflight hset
  | fulfil j e he hflight hset => exact hkeep j e .fulfilled he hflight hset
  | reject j e he hset => exact hkeep j (.failing e) (.rejected e) he rfl hset

/-- Nor is it in any run. -/
theorem outcome_reachable {s : Setup} {w w' : World} (hrun : Reachable (step s) w w')
    {i : Nat} {outcome : Except JsError Unit} (h : w.derived i = some outcome) :
    w'.derived i = some outcome :=
  hrun.invariant (I := fun w => w.derived i = some outcome) h
    fun _ _ _ hinv _ hstep => outcome_step hstep hinv

/-! ## Callers -/

/-- A caller goes on with what its derivation was settled with, and not before. -/
theorem resume_ensuring {s : Setup} {view : RunView} {job i : Nat} {f f' : Frame} {reply : Reply}
    {effects : List Effect} (h : f.resume s view job reply = some (f', effects))
    (hpc : f.pc = .ensuringAddresses i) :
    (∃ e, view.derived i = some (.error e) ∧ f'.pc = .rejected (.other e)) ∨
      view.derived i = some (.ok ()) := by
  cases reply with
  | resume =>
    cases hderived : view.derived i with
    | none => simp only [Frame.resume, hpc, hderived, reduceCtorEq] at h
    | some outcome =>
      cases outcome with
      | error e =>
        simp only [Frame.resume, hpc, hderived, Option.some.injEq] at h
        cases h
        exact .inl ⟨e, rfl, rfl⟩
      | ok _ => exact .inr rfl
  | _ =>
    -- an answer meant for another `await`
    cases hworker : f.worker <;>
      simp only [Frame.resume, Frame.resumeLeased, hpc, hworker, reduceCtorEq] at h

/-- A request goes on with what its derivation was settled with, likewise. -/
theorem resumeRequest_ensuring {s : Setup} {w : World} {i : Nat} {pc' : RequestPc} {reply : Reply}
    {effects : List Effect}
    (h : w.resumeRequest s (.ensuringAddresses i) reply = some (pc', effects)) :
    (∃ e, w.derived i = some (.error e) ∧ pc' = .answered false) ∨
      w.derived i = some (.ok ()) := by
  cases reply with
  | resume =>
    cases hderived : w.derived i with
    | none => simp only [resumeRequest, hderived, reduceCtorEq] at h
    | some outcome =>
      cases outcome with
      | error e =>
        simp only [resumeRequest, hderived, Option.some.injEq] at h
        cases h
        exact .inl ⟨e, rfl, rfl⟩
      | ok _ => exact .inr rfl
  | _ => cases h

/-- With every derivation so far failed, a call starts a fresh one. -/
theorem AddressInv.ensureAddresses_fresh {s : Setup} {w : World} (h : AddressInv s w)
    (hdropped : ∀ d ∈ w.derivations, d.dropped = true) :
    (w.ensureAddresses s).2 = w.derivations.length ∧ ∃ d, d.inFlight = true ∧
      (w.ensureAddresses s).1.derivations = w.derivations ++ [d] := by
  have hnone : w.addressesReady = none := by
    cases hready : w.addressesReady with
    | none => rfl
    | some i =>
      -- a derivation that is remembered is one that has not failed
      obtain ⟨d, hd, hkept⟩ := h.ready i hready
      rw [hdropped d (List.mem_of_getElem? hd)] at hkept
      cases hkept
  rw [World.ensureAddresses, hnone]
  cases s.solana with
  | error e => exact ⟨rfl, _, rfl, rfl⟩
  | ok solana => exact ⟨rfl, _, rfl, rfl⟩

/-! ## The guarantee -/

/-- What `ensureAddresses` guarantees its callers, in a state of the service. -/
structure DerivesOnce (s : Setup) (w : World) : Prop where
  /-- At most one derivation is in flight. -/
  single : ∀ (i j : Nat) (d d' : Derivation), w.derivations[i]? = some d →
    w.derivations[j]? = some d' → d.inFlight = true → d'.inFlight = true → i = j
  /-- After a success none is in flight, and none is ever started again. -/
  final : .fulfilled ∈ w.derivations → (∀ d ∈ w.derivations, d.inFlight = false) ∧
    ∀ w', Reachable (step s) w w' → w'.derivations = w.derivations
  /-- A promise that has settled keeps its outcome, whatever other attempts come to. -/
  settled : ∀ i outcome, w.derived i = some outcome →
    ∀ w', Reachable (step s) w w' → w'.derived i = some outcome
  /-- When a promise is fulfilled every worker has its derived address, for good. -/
  resolved : ∀ i, w.derived i = some (.ok ()) →
    ∀ w', Reachable (step s) w w' → w'.AddressesDerived s
  /-- A caller goes on only when its derivation has settled; if that failed, by rejecting. -/
  callers : ∀ (job i : Nat) (f : Frame) (reply : Reply) (w' : World), w.frames[job]? = some f →
    f.pc = .ensuringAddresses i → step s w (.resume job reply) = some w' →
    (∃ e, w.derived i = some (.error e) ∧
      w'.frames[job]?.map Frame.pc = some (.rejected (.other e))) ∨
    w.derived i = some (.ok ()) ∧ w'.AddressesDerived s
  /-- Likewise a request, which answers 500. -/
  requests : ∀ (request i : Nat) (reply : Reply) (w' : World),
    w.requests[request]? = some (.ensuringAddresses i) →
    step s w (.resumeRequest request reply) = some w' →
    (∃ e, w.derived i = some (.error e) ∧ w'.requests[request]? = some (.answered false)) ∨
    w.derived i = some (.ok ()) ∧ w'.AddressesDerived s
  /-- A rejected caller can go on: its rejection does reach it. -/
  rejects : ∀ (job i : Nat) (f : Frame) (e : JsError), w.frames[job]? = some f →
    f.pc = .ensuringAddresses i → w.derived i = some (.error e) →
    (step s w (.resume job .resume)).isSome = true
  /-- So can a request whose derivation failed. -/
  rejectsRequests : ∀ (request i : Nat) (e : JsError),
    w.requests[request]? = some (.ensuringAddresses i) → w.derived i = some (.error e) →
    (step s w (.resumeRequest request .resume)).isSome = true
  /-- No address is there before a derivation has succeeded. -/
  placeholder : (∃ d ∈ w.derivations, d.inFlight = true) ∨ .fulfilled ∉ w.derivations →
    ∀ e ∈ w.pool.book, e.address = noAddress
  /-- A step writes no address, or all of them as the success of a derivation. -/
  whole : ∀ a w', step s w a = some w' → w'.pool.book = w.pool.book ∨
    .fulfilled ∉ w.derivations ∧ .fulfilled ∈ w'.derivations ∧ w'.AddressesDerived s
  /-- The `catch` of a failed derivation clears its own memo, rejects it and writes nothing. -/
  failed : ∀ i e, w.derivations[i]? = some (.failing e) → w.addressesReady = some i ∧
    ∃ w', step s w (.resumeDerivation i .resume) = some w' ∧ w'.pool = w.pool ∧
      w'.derived i = some (.error e) ∧ ∀ d ∈ w'.derivations, d.dropped = true
  /-- With every attempt so far failed, the next call starts a fresh one. -/
  fresh : (∀ d ∈ w.derivations, d.dropped = true) →
    (w.ensureAddresses s).2 = w.derivations.length ∧ ∃ d, d.inFlight = true ∧
      (w.ensureAddresses s).1.derivations = w.derivations ++ [d]
  /-- Whoever was granted a worker was granted its derived address. -/
  granted : ∀ call path, (call, .resolved path) ∈ w.pool.settled →
    ∃ solana, s.solana = .ok solana ∧
      w.pool.address path = (deriveWorker s.libs solana path).address
  /-- So with a library that derives no placeholder, never the placeholder. -/
  derivedAddress : (∀ solana path, (deriveWorker s.libs solana path).address ≠ noAddress) →
    ∀ call path, (call, .resolved path) ∈ w.pool.settled → w.pool.address path ≠ noAddress

/-- A derivation in flight is the one the memo names. -/
theorem AddressInv.memo_of_inFlight {s : Setup} {w : World} (h : AddressInv s w) {i : Nat}
    {d : Derivation} (hd : w.derivations[i]? = some d) (hflight : d.inFlight = true) :
    w.addressesReady = some i :=
  h.memo i d hd (Derivation.dropped_of_inFlight hflight)

/-- After a success a step leaves the derivations alone. -/
theorem AddressInv.derivations_of_fulfilled {s : Setup} {w w' : World} {a : Action}
    (h : AddressInv s w) (hfulfilled : .fulfilled ∈ w.derivations)
    (hstep : step s w a = some w') : w'.derivations = w.derivations := by
  -- nothing is in flight any more
  have hidle : ∀ (i : Nat) (d : Derivation), w.derivations[i]? = some d → d.inFlight = false := by
    intro i d hd
    rw [Bool.eq_false_iff]
    intro hflight
    exact h.not_fulfilled hd (Derivation.dropped_of_inFlight hflight)
      (Derivation.ne_fulfilled_of_inFlight hflight) hfulfilled
  cases step_derivationMove hstep with
  | quiet hderivations => exact hderivations
  | begin _ _ hnone =>
    obtain ⟨i, hi⟩ := List.mem_iff_getElem?.mp hfulfilled
    rw [h.memo i .fulfilled hi rfl] at hnone
    cases hnone
  | advance i d _ hd hflight =>
    rw [hidle i d hd] at hflight
    cases hflight
  | fulfil i d hd hflight =>
    rw [hidle i d hd] at hflight
    cases hflight
  | reject i e hd =>
    have hflight := hidle i _ hd
    cases hflight

/-- A step writes no address, or is the success of a derivation. -/
theorem AddressInv.book_step {s : Setup} {w w' : World} {a : Action} (h : AddressInv s w)
    (hstep : step s w a = some w') : w'.pool.book = w.pool.book ∨
      .fulfilled ∉ w.derivations ∧ .fulfilled ∈ w'.derivations ∧ w'.AddressesDerived s := by
  cases step_derivationMove hstep with
  | quiet _ _ hbook => exact .inl hbook
  | begin _ _ _ _ hpool => exact .inl (congrArg WorkerPool.book hpool)
  | advance _ _ _ _ _ _ _ hpool => exact .inl (congrArg WorkerPool.book hpool)
  | reject _ _ _ _ _ hpool => exact .inl (congrArg WorkerPool.book hpool)
  | fulfil i d hd hflight hset =>
    -- only the derivation that ends well writes the book, and it writes every address
    have hlt : i < w.derivations.length := (List.getElem?_eq_some_iff.mp hd).1
    have hmem : .fulfilled ∈ w'.derivations := by
      rw [hset]
      exact List.mem_of_getElem? (List.getElem?_set_self hlt)
    exact .inr ⟨h.not_fulfilled hd (Derivation.dropped_of_inFlight hflight)
      (Derivation.ne_fulfilled_of_inFlight hflight), hmem,
      (addressInv_step h hstep).fulfilled hmem⟩

/-- The `catch` of a failed derivation. -/
theorem AddressInv.catch_step {s : Setup} {w : World} (h : AddressInv s w) {i : Nat} {e : JsError}
    (hd : w.derivations[i]? = some (.failing e)) :
    ∃ w', step s w (.resumeDerivation i .resume) = some w' ∧ w'.pool = w.pool ∧
      w'.derived i = some (.error e) ∧ ∀ d ∈ w'.derivations, d.dropped = true := by
  have hlt : i < w.derivations.length := (List.getElem?_eq_some_iff.mp hd).1
  let w' : World :=
    { w with addressesReady := none, derivations := w.derivations.set i (.rejected e) }
  have hstep : step s w (.resumeDerivation i .resume) = some w' := by
    simp only [step, hd, Option.bind_some]
    rfl
  refine ⟨w', hstep, rfl, ?_, ?_⟩
  · show (w.derivations.set i (.rejected e))[i]?.bind Derivation.outcome = _
    rw [List.getElem?_set_self hlt]
    rfl
  · -- the memo would name any other attempt still alive
    intro d hmem
    obtain ⟨j, hj⟩ := List.mem_iff_getElem?.mp hmem
    by_contra hkept
    rw [Bool.not_eq_true] at hkept
    have hready : w'.addressesReady = some j := (addressInv_step h hstep).memo j d hj hkept
    cases hready

/-- Whatever jobs and requests call `ensureAddresses`, and in whatever order they go on: one
    derivation at a time, shared by all who called while it ran, and tried again after a failure. -/
theorem derives_once {s : Setup} {start : Millis} {w : World}
    (h : Reachable (step s) (World.new s start) w) : DerivesOnce s w := by
  have hinv := addressInv_reachable h
  -- a fulfilled derivation stays, and with it the addresses
  have hderived : ∀ i, w.derived i = some (.ok ()) → ∀ w', Reachable (step s) w w' →
      w'.AddressesDerived s := by
    intro i hi w' hrun
    exact (addressInv_reachable (h.trans hrun)).fulfilled
      (fulfilled_of_derived (outcome_reachable hrun hi))
  have hnext : ∀ {a : Action} {w' : World}, step s w a = some w' → Reachable (step s) w w' :=
    fun hstep => .tail _ .refl trivial hstep
  have hgranted : ∀ call path, (call, .resolved path) ∈ w.pool.settled →
      ∃ solana, s.solana = .ok solana ∧
        w.pool.address path = (deriveWorker s.libs solana path).address := by
    intro call path hmem
    obtain ⟨hpath, hfulfilled⟩ := grantInv_reachable h call path hmem
    exact (hinv.fulfilled hfulfilled).address hpath
  refine ⟨?_, ?_, ?_, hderived, ?_, ?_, ?_, ?_, ?_, ?_, ?_, hinv.ensureAddresses_fresh, hgranted,
    ?_⟩
  · intro i j d d' hd hd' hflight hflight'
    have hi := hinv.memo_of_inFlight hd hflight
    have hj := hinv.memo_of_inFlight hd' hflight'
    exact Option.some.inj (hi.symm.trans hj)
  · intro hfulfilled
    refine ⟨?_, ?_⟩
    · intro d hd
      obtain ⟨i, hi⟩ := List.mem_iff_getElem?.mp hd
      rw [Bool.eq_false_iff]
      intro hflight
      exact hinv.not_fulfilled hi (Derivation.dropped_of_inFlight hflight)
        (Derivation.ne_fulfilled_of_inFlight hflight) hfulfilled
    · intro w' hrun
      -- step by step, the derivations of the start
      refine hrun.invariant' (I := fun w' => w'.derivations = w.derivations) rfl ?_
      intro v a v' hreach hsame _ hstep
      rw [← hsame]
      exact (addressInv_reachable (h.trans hreach)).derivations_of_fulfilled
        (hsame ▸ hfulfilled) hstep
  · exact fun i outcome hi w' hrun => outcome_reachable hrun hi
  · intro job i f reply w' hf hpc hstep
    obtain ⟨f₀, f', effects, hf₀, hresume, rfl⟩ := step_resume hstep
    cases hf₀.symm.trans hf
    have hlt : job < w.frames.length := (List.getElem?_eq_some_iff.mp hf).1
    rcases resume_ensuring hresume hpc with ⟨e, he, hpc'⟩ | hok
    · refine .inl ⟨e, he, ?_⟩
      rw [performAll_frames, List.getElem?_set_self hlt, Option.map_some, hpc']
    · exact .inr ⟨hok, hderived i hok _ (hnext hstep)⟩
  · intro request i reply w' hpc hstep
    obtain ⟨pc, pc', effects, hpc₀, hresume, rfl⟩ := step_resumeRequest hstep
    cases hpc₀.symm.trans hpc
    have hlt : request < w.requests.length := (List.getElem?_eq_some_iff.mp hpc).1
    rcases resumeRequest_ensuring hresume with ⟨e, he, rfl⟩ | hok
    · refine .inl ⟨e, he, ?_⟩
      rw [performAll_requests, List.getElem?_set_self hlt]
    · exact .inr ⟨hok, hderived i hok _ (hnext hstep)⟩
  · intro job i f e hf hpc he
    have hview : w.view.derived i = some (.error e) := he
    simp [step, hf, Frame.resume, hpc, hview]
  · intro request i e hpc he
    simp [step, hpc, resumeRequest, he]
  · intro hcase
    rcases hcase with ⟨d, hd, hflight⟩ | hnone
    · obtain ⟨i, hi⟩ := List.mem_iff_getElem?.mp hd
      exact hinv.blank (hinv.not_fulfilled hi (Derivation.dropped_of_inFlight hflight)
        (Derivation.ne_fulfilled_of_inFlight hflight))
    · exact hinv.blank hnone
  · exact fun a w' hstep => hinv.book_step hstep
  · exact fun i e hd => ⟨hinv.memo_of_inFlight hd rfl, hinv.catch_step hd⟩
  · intro hlibrary call path hmem
    obtain ⟨solana, _, haddress⟩ := hgranted call path hmem
    rw [haddress]
    exact hlibrary solana path

/-- Two jobs join a derivation that fails, and a third one's call starts the next attempt. -/
def retriedRun : List Action :=
  [.start .ethSelfTransfer, .start .ethSelfTransfer,
    .resumeDerivation 0 (.throw { message := "HTTP 503" }), .resumeDerivation 0 .resume,
    .start .ethSelfTransfer, .resume 0 .resume, .resumeDerivation 1 .resume,
    .resumeDerivation 1 .resume, .resume 1 .resume, .resume 2 .resume, .resume 2 .resume,
    .resume 2 .resume]

/-- The state that run ends in. -/
def retriedWorld : World :=
  (exec (step sampleSetup) (World.new sampleSetup 0) retriedRun).getD (World.new sampleSetup 0)

/-- The two jobs are rejected with the first attempt, the third leases with the second. -/
theorem retriedRun_derives_once :
    retriedWorld.derivations = [.rejected { message := "HTTP 503" }, .fulfilled] ∧
    retriedWorld.pool.settled = [(2, .resolved "load-0")] ∧
    DerivesOnce sampleSetup retriedWorld := by
  have hexec : exec (step sampleSetup) (World.new sampleSetup 0) retriedRun =
      some retriedWorld := exec_getD (by decide +kernel) _
  exact ⟨by decide +kernel, by decide +kernel, derives_once (reachable_of_exec hexec)⟩

end World

end ContractPinger
