import ContractPinger.Spec.Grants
import ContractPinger.Spec.LeaseSafety

/-!
# The derived addresses

`ensureAddresses` memoizes the promise of a derivation, drops it when the derivation
rejects, and applies the derived addresses in one go when it is done. So at most one
derivation is in flight, and no job gets past `ensureAddresses` before every worker has its
address.

## Key results

- `applyAddresses_book`: what the loop of `ensureAddresses` makes of the pool
- `addressInv_reachable`: the derivations and the addresses agree in every reachable state
- `addresses_derived`: a job past `ensureAddresses` finds every address derived
- `grantInv_reachable`: only paths of the pool are granted, and only once they have addresses
-/

namespace ContractPinger

open Machine

namespace WorkerPool

/-- The paths of the pool with their addresses. -/
def book (pool : WorkerPool) : List DerivedWorker :=
  pool.standing.map fun w => { path := w.path, address := w.address }

/-- The address book is read off the standing data of the workers. -/
theorem book_congr {pool pool' : WorkerPool} (h : pool'.standing = pool.standing) :
    pool'.book = pool.book := by
  rw [book, book, h]

/-- It has an entry for every path, in the pool's order. -/
theorem book_paths (pool : WorkerPool) : pool.book.map DerivedWorker.path = pool.paths := by
  rw [book, List.map_map, ← pool.standing_paths]
  rfl

/-- Two pools with the same book have the same addresses. -/
theorem address_congr {pool pool' : WorkerPool} (h : pool'.book = pool.book) (path : String) :
    pool'.address path = pool.address path := by
  -- the address of a path is looked up in the book
  have hfind : ∀ pool : WorkerPool, pool.address path =
      ((pool.book.find? fun e => e.path == path).map DerivedWorker.address).getD noAddress := by
    intro pool
    rw [book, standing, List.find?_map, List.find?_map, Option.map_map, Option.map_map]
    rfl
  rw [hfind, hfind, h]

/-- Only `setAddress` writes to the book. -/
theorem onPool_book (effect : Effect) (now : Millis) (pool : WorkerPool) :
    (effect.onPool now pool).book = pool.book := by
  rcases effect.onPool_cases now pool with ⟨_, hleases⟩ | ⟨path, f, hmark, heq⟩
  · exact book_congr hleases.standing
  · rw [heq, book, modifyWorker_standing pool path (Effect.mark_unleased hmark)]
    refine List.map_modifyFirst (fun w => ?_) pool.standing
    cases effect <;> simp only [Effect.mark, Option.some.injEq, Prod.mk.injEq,
      reduceCtorEq] at hmark <;> obtain ⟨rfl, rfl⟩ := hmark
    · rfl
    · rfl
    · -- `reconcile` writes neither path nor address, whichever way it decides
      dsimp only
      split <;> rfl

/-- `setAddress` rewrites the entry of its path. -/
theorem setAddress_book {pool : WorkerPool} (hnd : pool.paths.Nodup) (path : String)
    (address : Hex) : (pool.setAddress path address).book =
      pool.book.map fun e => if e.path = path then { path, address } else e := by
  have hkeys : (pool.standing.map Worker.path).Nodup := pool.standing_paths ▸ hnd
  have hmarked : (pool.setAddress path address).standing =
      pool.standing.modifyFirst (fun w => w.path == path) fun w => { w with address } :=
    modifyWorker_standing pool path fun _ => rfl
  rw [book, hmarked, List.modifyFirst_eq_map hkeys, book, List.map_map, List.map_map]
  refine List.map_congr_left fun w _ => ?_
  simp only [Function.comp_apply]
  split
  · rename_i hpath
    rw [← hpath]
  · rfl

/-- The loop over the derived addresses writes each of them at its path. -/
theorem applyAddresses_book (libs : Libraries) (solana : SolanaContext) {pool : WorkerPool}
    (hnd : pool.paths.Nodup) (ps : List String) :
    (World.applyAddresses pool (ps.map (deriveWorker libs solana))).book =
      pool.book.map fun e => if e.path ∈ ps then deriveWorker libs solana e.path else e := by
  induction ps generalizing pool with
  | nil => simp [World.applyAddresses]
  | cons path rest ih =>
    have hset := setAddress_book hnd path (deriveWorker libs solana path).address
    have hnd' : (pool.setAddress path (deriveWorker libs solana path).address).paths.Nodup := by
      rwa [setAddress_paths]
    have hrest := ih hnd'
    rw [World.applyAddresses, List.map_cons, List.foldl_cons]
    refine hrest.trans ?_
    rw [hset, List.map_map]
    refine List.map_congr_left fun e _ => ?_
    -- an entry is written at its own path, now or later
    by_cases heq : e.path = path
    · simp [heq, deriveWorker]
    · simp [heq]

end WorkerPool

namespace World

/-- No call `run()` makes changes the address book. -/
theorem performAll_book (w : World) (who : Proc) (effects : List Effect) :
    (w.performAll who effects).pool.book = w.pool.book := by
  induction effects generalizing w with
  | nil => rfl
  | cons effect rest ih =>
    rw [performAll_cons, ih, perform_pool, WorkerPool.onPool_book]

end World

/-! ## The memoized derivation -/

/-- The promise of the derivation has been dropped. -/
def Derivation.dropped : Derivation → Bool
  | .rejected _ => true
  | _ => false

/-- The activation has found `ensureAddresses` fulfilled and is still going. -/
def Pc.pastAddresses : Pc → Bool
  | .ensuringAddresses _ => false
  | .rejected _ => false
  | .ended => false
  | _ => true

/-- Likewise for a request. -/
def RequestPc.pastAddresses : RequestPc → Bool
  | .refreshing _ => true
  | .reconciling _ => true
  | _ => false

/-- Only a fulfilled derivation lets an activation past `ensureAddresses`. -/
theorem Frame.resume_pastAddresses {s : Setup} {view : RunView} {job : Nat} {f f' : Frame}
    {reply : Reply} {effects : List Effect} (h : f.resume s view job reply = some (f', effects))
    (hpast : f'.pc.pastAddresses = true) :
    f.pc.pastAddresses = true ∨ ∃ d, view.derived d = some (.ok ()) := by
  -- with a reply the `await` cannot get, nothing is resumed
  have hstuck : ∀ pc : Pc, pc.pastAddresses = false → ∀ path,
      f.resumeLeased s view job path pc reply = none := by
    intro pc hpc path
    cases pc <;> simp only [Pc.pastAddresses, reduceCtorEq] at hpc <;> cases reply <;> rfl
  unfold resume at h
  split at h
  case h_1 d hpc =>
    split at h
    · cases h
    · cases h
      cases hpast
    · rename_i hderived
      exact .inr ⟨d, hderived⟩
  case h_9 hpc =>
    cases h
    cases hpast
  case h_10 =>
    cases hbefore : f.pc.pastAddresses with
    | true => exact .inl rfl
    | false =>
      split at h
      · rw [hstuck f.pc hbefore] at h
        cases h
      · cases h
  all_goals exact .inl (by rw [‹f.pc = _›]; rfl)

/-- Before `ensureAddresses` is fulfilled a job makes no call that moves a lease. -/
theorem Frame.quiet_of_not_past {s : Setup} {view : RunView} {job : Nat} {f f' : Frame}
    {reply : Reply} {effects : List Effect} (hwf : f.Wf)
    (h : f.resume s view job reply = some (f', effects)) (hbefore : f.pc.pastAddresses = false)
    (hafter : f'.pc.pastAddresses = false) : effects.filter Effect.movesLease = [] := by
  have hmove : LeaseMove view.pool job f.tenure f'.tenure (effects.filter Effect.movesLease) :=
    (resume_lease hwf h).2
  -- so early a job is idle or over, and only its own move could touch a lease
  have htenure : ∀ g : Frame, g.pc.pastAddresses = false → g.tenure = .idle ∨ g.tenure = .over := by
    intro g hg
    cases hpc : g.pc <;> simp [Pc.pastAddresses, hpc] at hg <;>
      simp [tenure, phase, hpc, Pc.stage, Stage.phase]
  have hf := htenure f hbefore
  have hf' := htenure f' hafter
  generalize effects.filter Effect.movesLease = calls at hmove
  generalize f.tenure = old at hmove hf
  generalize f'.tenure = new at hmove hf'
  cases hmove with
  | ask => simp at hf'
  | release => simp at hf
  | _ => rfl

namespace World

/-- Every worker has the address that the service's network gives its path. -/
def AddressesDerived (w : World) (s : Setup) : Prop :=
  ∃ solana, s.solana = .ok solana ∧
    w.pool.book = deriveWorkerAddresses s.libs solana w.pool.paths

/-- The derivations, the memo and the addresses agree. -/
structure AddressInv (s : Setup) (w : World) : Prop where
  paths : w.pool.paths = buildPaths s.env.bidirectional.pathPrefix s.paths
  memo : ∀ (i : Nat) (d : Derivation), w.derivations[i]? = some d → d.dropped = false →
    w.addressesReady = some i
  ready : ∀ i, w.addressesReady = some i →
    ∃ d, w.derivations[i]? = some d ∧ d.dropped = false
  progress : ∀ solana rest derived, .deriving solana rest derived ∈ w.derivations →
    s.solana = .ok solana ∧ ∃ done, w.pool.paths = done ++ rest ∧
      derived = done.map (deriveWorker s.libs solana)
  fulfilled : .fulfilled ∈ w.derivations → w.AddressesDerived s
  blank : .fulfilled ∉ w.derivations → ∀ e ∈ w.pool.book, e.address = noAddress
  past : ∀ f ∈ w.frames, f.pc.pastAddresses = true → .fulfilled ∈ w.derivations
  pastRequests : ∀ pc ∈ w.requests, pc.pastAddresses = true → .fulfilled ∈ w.derivations

/-- Before the first call there is no derivation and no address. -/
theorem addressInv_new (s : Setup) (now : Millis) : AddressInv s (World.new s now) where
  paths := by simp [World.new, WorkerPool.new, WorkerPool.paths, Function.comp_def]
  memo i d h := nomatch h
  ready i h := nomatch h
  progress _ _ _ h := nomatch h
  fulfilled h := nomatch h
  blank _ e he := by
    simp only [WorkerPool.book, WorkerPool.standing, World.new, WorkerPool.new, List.map_map,
      List.mem_map] at he
    obtain ⟨path, _, rfl⟩ := he
    rfl
  past _ h := nomatch h
  pastRequests _ h := nomatch h

/-- A call of `ensureAddresses` joins the memoized derivation or starts one. -/
theorem ensureAddresses_cases (w : World) (s : Setup) : (w.ensureAddresses s).1 = w ∨
    w.addressesReady = none ∧ ∃ d,
      ((∃ e, d = .failing e) ∨
        ∃ solana, s.solana = .ok solana ∧ d = .deriving solana w.pool.paths []) ∧
      (w.ensureAddresses s).1 =
        { w with
          derivations := w.derivations ++ [d]
          addressesReady := some w.derivations.length } := by
  unfold ensureAddresses
  split
  · exact .inl rfl
  · rename_i hnone
    cases hsolana : s.solana with
    | error e => exact .inr ⟨hnone, _, .inl ⟨e, rfl⟩, rfl⟩
    | ok solana => exact .inr ⟨hnone, _, .inr ⟨solana, rfl, rfl⟩, rfl⟩

namespace AddressInv

variable {s : Setup} {w w' : World}

/-- A step that writes no address and leaves the derivations alone. -/
theorem quiet (h : AddressInv s w) (hbook : w'.pool.book = w.pool.book)
    (hderivations : w'.derivations = w.derivations)
    (hready : w'.addressesReady = w.addressesReady)
    (hframes : ∀ f ∈ w'.frames, f.pc.pastAddresses = true → .fulfilled ∈ w.derivations)
    (hrequests : ∀ pc ∈ w'.requests, pc.pastAddresses = true → .fulfilled ∈ w.derivations) :
    AddressInv s w' := by
  -- the paths are part of the book
  have hpaths : w'.pool.paths = w.pool.paths := by
    rw [← WorkerPool.book_paths, hbook, WorkerPool.book_paths]
  refine ⟨hpaths.trans h.paths, ?_, ?_, ?_, ?_, ?_, ?_, ?_⟩
  · rw [hderivations, hready]
    exact h.memo
  · rw [hderivations, hready]
    exact h.ready
  · rw [hderivations, hpaths]
    exact h.progress
  · rw [hderivations, AddressesDerived, hbook, hpaths]
    exact h.fulfilled
  · rw [hderivations, hbook]
    exact h.blank
  · rw [hderivations]
    exact hframes
  · rw [hderivations]
    exact hrequests

/-- With a derivation in flight no other has been fulfilled. -/
theorem not_fulfilled (h : AddressInv s w) {i : Nat} {d : Derivation}
    (hd : w.derivations[i]? = some d) (hdropped : d.dropped = false) (hne : d ≠ .fulfilled) :
    .fulfilled ∉ w.derivations := by
  intro hmem
  obtain ⟨j, hj⟩ := List.mem_iff_getElem?.mp hmem
  have hi := h.memo i d hd hdropped
  -- both would be the one the memo names
  have hsame : some i = some j := hi.symm.trans (h.memo j .fulfilled hj rfl)
  cases hsame
  rw [hd] at hj
  exact hne (Option.some.inj hj)

/-- Joining the memoized derivation, or starting one. -/
theorem ensureAddresses (h : AddressInv s w) : AddressInv s (w.ensureAddresses s).1 := by
  rcases ensureAddresses_cases w s with hsame | ⟨hnone, d, hd, hjoined⟩
  · rw [hsame]
    exact h
  · have hne : d ≠ .fulfilled := by
      rcases hd with ⟨e, rfl⟩ | ⟨solana, _, rfl⟩ <;> exact nofun
    have hdropped : d.dropped = false := by
      rcases hd with ⟨e, rfl⟩ | ⟨solana, _, rfl⟩ <;> rfl
    rw [hjoined]
    refine ⟨h.paths, ?_, ?_, ?_, ?_, ?_, ?_, ?_⟩
    · -- every earlier derivation has been dropped, for there is no memo
      intro i d' hd' hkept
      rcases List.getElem?_concat_eq_some hd' with ⟨rfl, _⟩ | hold
      · rfl
      · have hmemo := h.memo i d' hold hkept
        rw [hnone] at hmemo
        cases hmemo
    · intro i hi
      cases hi
      exact ⟨d, List.getElem?_concat_length, hdropped⟩
    · intro solana rest derived hmem
      rcases List.mem_append.mp hmem with hmem | hmem
      · exact h.progress solana rest derived hmem
      · rw [← List.mem_singleton.mp hmem] at hd
        rcases hd with ⟨e, he⟩ | ⟨solana', hsolana, heq⟩
        · cases he
        · cases heq
          exact ⟨hsolana, [], rfl, rfl⟩
    · intro hmem
      rcases List.mem_append.mp hmem with hmem | hmem
      · exact h.fulfilled hmem
      · exact absurd (List.mem_singleton.mp hmem).symm hne
    · intro hmem
      exact h.blank fun hold => hmem (List.mem_append_left _ hold)
    · intro f hf hpast
      exact List.mem_append_left _ (h.past f hf hpast)
    · intro pc hpc hpast
      exact List.mem_append_left _ (h.pastRequests pc hpc hpast)

/-- Putting an unfulfilled derivation in the place of another fulfils none. -/
theorem not_fulfilled_set {d : Derivation} (hnone : .fulfilled ∉ w.derivations)
    (hne : d ≠ .fulfilled) (index : Nat) : .fulfilled ∉ w.derivations.set index d := by
  intro hmem
  rcases List.mem_or_eq_of_mem_set hmem with hold | heq
  · exact hnone hold
  · exact hne heq.symm

/-- A derivation in flight goes on. -/
theorem replace (h : AddressInv s w) {index : Nat} {d d' : Derivation}
    (hd : w.derivations[index]? = some d) (hdropped : d.dropped = false) (hne : d ≠ .fulfilled)
    (hdropped' : d'.dropped = false) (hne' : d' ≠ .fulfilled)
    (hprogress : ∀ solana rest derived, d' = .deriving solana rest derived →
      s.solana = .ok solana ∧ ∃ done, w.pool.paths = done ++ rest ∧
        derived = done.map (deriveWorker s.libs solana)) :
    AddressInv s { w with derivations := w.derivations.set index d' } := by
  have hlt : index < w.derivations.length := (List.getElem?_eq_some_iff.mp hd).1
  -- a derivation in flight is the only one, so none has succeeded
  have hnone := h.not_fulfilled hd hdropped hne
  have hnone' := not_fulfilled_set hnone hne' index
  refine ⟨h.paths, ?_, ?_, ?_, fun hmem => absurd hmem hnone', fun _ => h.blank hnone, ?_, ?_⟩
  · intro i e he hkept
    rcases List.getElem?_set_eq_some he with ⟨rfl, _⟩ | ⟨_, hold⟩
    · exact h.memo _ d hd hdropped
    · exact h.memo i e hold hkept
  · intro i hi
    have hsame : some i = some index := hi.symm.trans (h.memo index d hd hdropped)
    -- the memo names it, and goes on to
    cases hsame
    exact ⟨d', List.getElem?_set_self hlt, hdropped'⟩
  · intro solana rest derived hmem
    rcases List.mem_or_eq_of_mem_set hmem with hmem | heq
    · exact h.progress solana rest derived hmem
    · exact hprogress solana rest derived heq.symm
  · exact fun f hf hpast => absurd (h.past f hf hpast) hnone
  · exact fun pc hpc hpast => absurd (h.pastRequests pc hpc hpast) hnone

/-- A pool to which every address has been applied. -/
theorem applied_book (h : AddressInv s w) (solana : SolanaContext) :
    (applyAddresses w.pool (w.pool.paths.map (deriveWorker s.libs solana))).book =
      deriveWorkerAddresses s.libs solana w.pool.paths := by
  have hnd : w.pool.paths.Nodup := h.paths ▸ buildPaths_nodup _ _
  rw [WorkerPool.applyAddresses_book s.libs solana hnd, deriveWorkerAddresses,
    ← WorkerPool.book_paths, List.map_map]
  refine List.map_congr_left fun e he => ?_
  rw [if_pos (List.mem_map_of_mem he)]
  rfl

/-- A derivation is done: the addresses are applied in one go. -/
theorem fulfil (h : AddressInv s w) {index : Nat} {solana : SolanaContext}
    {derived : List DerivedWorker}
    (hd : w.derivations[index]? = some (.deriving solana [] derived)) :
    AddressInv s { w with
      pool := applyAddresses w.pool derived
      derivations := w.derivations.set index .fulfilled } := by
  have hlt : index < w.derivations.length := (List.getElem?_eq_some_iff.mp hd).1
  obtain ⟨hsolana, done, hpaths, rfl⟩ := h.progress solana [] derived (List.mem_of_getElem? hd)
  rw [List.append_nil] at hpaths
  rw [← hpaths]
  -- every path has been derived, so the loop writes the whole book
  have hbook := h.applied_book solana
  have hsame : (applyAddresses w.pool (w.pool.paths.map (deriveWorker s.libs solana))).paths =
      w.pool.paths := by
    rw [← WorkerPool.book_paths, hbook, deriveWorkerAddresses, List.map_map]
    exact List.map_id _
  have hfulfilled : Derivation.fulfilled ∈ w.derivations.set index .fulfilled :=
    List.mem_of_getElem? (List.getElem?_set_self hlt)
  have hmemo := h.memo index _ hd rfl
  refine ⟨hsame.trans h.paths, ?_, ?_, ?_, ?_, ?_, ?_, ?_⟩
  · intro i e he hkept
    rcases List.getElem?_set_eq_some he with ⟨rfl, _⟩ | ⟨_, hold⟩
    · exact hmemo
    · exact h.memo i e hold hkept
  · intro i hi
    cases hi.symm.trans hmemo
    exact ⟨.fulfilled, List.getElem?_set_self hlt, rfl⟩
  · intro solana' rest derived hmem
    rcases List.mem_or_eq_of_mem_set hmem with hmem | heq
    · rw [hsame]
      exact h.progress solana' rest derived hmem
    · cases heq
  · intro _
    refine ⟨solana, hsolana, ?_⟩
    show _ = deriveWorkerAddresses s.libs solana (applyAddresses w.pool _).paths
    rw [hsame]
    exact hbook
  · exact fun hmem => absurd hfulfilled hmem
  · exact fun _ _ _ => hfulfilled
  · exact fun _ _ _ => hfulfilled

/-- A derivation has failed: the memo is dropped with it. -/
theorem drop (h : AddressInv s w) {index : Nat} {e : JsError}
    (hd : w.derivations[index]? = some (.failing e)) :
    AddressInv s { w with
      addressesReady := none
      derivations := w.derivations.set index (.rejected e) } := by
  have hnone := h.not_fulfilled hd rfl (by simp)
  have hnone' := not_fulfilled_set hnone (d := .rejected e) (by simp) index
  refine ⟨h.paths, ?_, by simp, ?_, fun hmem => absurd hmem hnone', fun _ => h.blank hnone,
    ?_, ?_⟩
  · intro i e' he' hkept
    rcases List.getElem?_set_eq_some he' with ⟨_, rfl⟩ | ⟨hi, hold⟩
    · -- the one that failed is dropped from here on
      cases hkept
    · -- and no other was alive
      have hsame : some index = some i :=
        (h.memo index _ hd rfl).symm.trans (h.memo i e' hold hkept)
      exact absurd (Option.some.inj hsame).symm hi
  · intro solana rest derived hmem
    rcases List.mem_or_eq_of_mem_set hmem with hmem | heq
    · exact h.progress solana rest derived hmem
    · cases heq
  · exact fun f hf hpast => absurd (h.past f hf hpast) hnone
  · exact fun pc hpc hpast => absurd (h.pastRequests pc hpc hpast) hnone

/-- Whatever a derivation is answered. -/
theorem resumeDerivation (h : AddressInv s w) {index : Nat} {d : Derivation} {reply : Reply}
    (hd : w.derivations[index]? = some d)
    (hresume : w.resumeDerivation s index d reply = some w') : AddressInv s w' := by
  cases resumeDerivation_stretch hresume
  case derived solana path rest derived =>
    -- one more path is derived
    obtain ⟨hsolana, done, hpaths, hderived⟩ :=
      h.progress solana (path :: rest) derived (List.mem_of_getElem? hd)
    refine h.replace hd rfl (by simp) rfl (by simp) ?_
    intro solana' rest' derived' heq
    cases heq
    refine ⟨hsolana, done ++ [path], ?_, ?_⟩
    · rw [hpaths, List.append_assoc]
      rfl
    · rw [hderived, List.map_append]
      rfl
  case threw => exact h.replace hd rfl (by simp) rfl (by simp) (by simp)
  case applied => exact h.fulfil hd
  case caught => exact h.drop hd

end AddressInv

/-- A derivation whose promise is fulfilled. -/
theorem fulfilled_of_derived {w : World} {d : Nat} (h : w.derived d = some (.ok ())) :
    .fulfilled ∈ w.derivations := by
  rw [derived, Option.bind_eq_some_iff] at h
  obtain ⟨derivation, hd, houtcome⟩ := h
  cases derivation <;> simp [Derivation.outcome] at houtcome
  exact List.mem_of_getElem? hd

/-- Only a fulfilled derivation lets a request past `ensureAddresses`. -/
theorem resumeRequest_pastAddresses {s : Setup} {w : World} {pc pc' : RequestPc} {reply : Reply}
    {effects : List Effect} (h : w.resumeRequest s pc reply = some (pc', effects))
    (hpast : pc'.pastAddresses = true) :
    pc.pastAddresses = true ∨ ∃ d, w.derived d = some (.ok ()) := by
  cases resumeRequest_stretch h
  case underived => cases hpast
  case derived d hd => exact .inr ⟨d, hd⟩
  all_goals exact .inl rfl

/-- Every step keeps derivations and addresses in agreement. -/
theorem addressInv_step {s : Setup} {w w' : World} {a : Action} (h : AddressInv s w)
    (hstep : step s w a = some w') : AddressInv s w' := by
  cases a with
  | start mode =>
    cases hstep
    -- a new frame is not past `ensureAddresses`
    have hnew : ∀ {frame : Frame}, frame.pc.pastAddresses = false →
        ∀ f ∈ w.frames ++ [frame], f.pc.pastAddresses = true → .fulfilled ∈ w.derivations := by
      intro frame hframe f hf hpast
      rcases List.mem_append.mp hf with hf | hf
      · exact h.past f hf hpast
      · rw [List.mem_singleton.mp hf, hframe] at hpast
        cases hpast
    unfold World.start
    dsimp only
    split
    · exact h.quiet rfl rfl rfl (hnew rfl) h.pastRequests
    · let accepted : World :=
        { w with
          jobs := w.jobs.create w.frames.length s.environment mode w.now
          history := w.history ++ [.started w.frames.length w.now] }
      have haccepted : AddressInv s accepted := h.quiet rfl rfl rfl h.past h.pastRequests
      have hjoined := haccepted.ensureAddresses
      refine hjoined.quiet rfl rfl rfl ?_ hjoined.pastRequests
      intro f hf hpast
      rcases List.mem_append.mp hf with hf | hf
      · exact hjoined.past f hf hpast
      · rw [List.mem_singleton.mp hf] at hpast
        cases hpast
  | getWorkers =>
    cases hstep
    have hjoined := h.ensureAddresses
    refine hjoined.quiet rfl rfl rfl hjoined.past ?_
    intro pc hpc hpast
    rcases List.mem_append.mp hpc with hpc | hpc
    · exact hjoined.pastRequests pc hpc hpast
    · rw [List.mem_singleton.mp hpc] at hpast
      cases hpast
  | resume job reply =>
    obtain ⟨f, f', effects, hf, hresume, rfl⟩ := step_resume hstep
    refine h.quiet (performAll_book _ _ _) (performAll_derivations _ _ _)
      (performAll_addressesReady _ _ _) ?_ (by rw [performAll_requests]; exact h.pastRequests)
    intro g hg hpast
    rw [performAll_frames] at hg
    rcases List.mem_or_eq_of_mem_set hg with hg | rfl
    · exact h.past g hg hpast
    · rcases Frame.resume_pastAddresses hresume hpast with hbefore | ⟨d, hd⟩
      · exact h.past f (List.mem_of_getElem? hf) hbefore
      · -- whoever has just passed was let through by a promise that is fulfilled
        exact fulfilled_of_derived hd
  | resumeRequest request reply =>
    obtain ⟨pc, pc', effects, hpc, hresume, rfl⟩ := step_resumeRequest hstep
    refine h.quiet (performAll_book _ _ _) (performAll_derivations _ _ _)
      (performAll_addressesReady _ _ _) (by rw [performAll_frames]; exact h.past) ?_
    intro q hq hpast
    rw [performAll_requests] at hq
    rcases List.mem_or_eq_of_mem_set hq with hq | rfl
    · exact h.pastRequests q hq hpast
    · rcases resumeRequest_pastAddresses hresume hpast with hbefore | ⟨d, hd⟩
      · exact h.pastRequests pc (List.mem_of_getElem? hpc) hbefore
      · exact fulfilled_of_derived hd
  | resumeDerivation index reply =>
    simp only [step, Option.bind_eq_some_iff] at hstep
    obtain ⟨d, hd, hresume⟩ := hstep
    exact h.resumeDerivation hd hresume
  | expire job =>
    obtain ⟨_, rfl⟩ := step_expire hstep
    have hleases := WorkerPool.LeasesOnly.expire w.pool job
    exact h.quiet (WorkerPool.book_congr hleases.standing) rfl rfl h.past h.pastRequests
  | respondDeadline job =>
    obtain ⟨f, hf, _, rfl⟩ := step_respondDeadline hstep
    refine h.quiet rfl rfl rfl ?_ h.pastRequests
    intro g hg hpast
    rcases List.mem_or_eq_of_mem_set hg with hg | rfl
    · exact h.past g hg hpast
    · exact h.past f (List.mem_of_getElem? hf) hpast
  | abortActiveJobs =>
    cases hstep
    have hleases := WorkerPool.LeasesOnly.rejectWaiters w.pool
      (.other { message := "Process is shutting down" })
    refine h.quiet (WorkerPool.book_congr hleases.standing) rfl rfl ?_ h.pastRequests
    intro g hg hpast
    obtain ⟨f, hf, rfl⟩ := List.mem_map.mp hg
    refine h.past f hf ?_
    split at hpast
    · exact hpast
    · exact hpast
  | clock now =>
    cases hstep
    exact h.quiet rfl rfl rfl h.past h.pastRequests

/-- The invariant of the derivations, in every reachable state. -/
theorem addressInv_reachable {s : Setup} {start : Millis} {w : World}
    (h : Reachable (step s) (World.new s start) w) : AddressInv s w :=
  h.invariant (addressInv_new s start) fun _ _ _ hinv _ hstep => addressInv_step hinv hstep

/-- A job that is past `ensureAddresses` finds every worker with its derived address. -/
theorem AddressInv.addresses_derived {s : Setup} {w : World} (h : AddressInv s w) {job : Nat}
    {f : Frame} (hf : w.frames[job]? = some f) (hpast : f.pc.pastAddresses = true) :
    w.AddressesDerived s :=
  h.fulfilled (h.past f (List.mem_of_getElem? hf) hpast)

/-- With every address derived, the address of a path of the pool. -/
theorem AddressesDerived.address {s : Setup} {w : World} (h : w.AddressesDerived s)
    {path : String} (hpath : path ∈ w.pool.paths) :
    ∃ solana, s.solana = .ok solana ∧
      w.pool.address path = (deriveWorker s.libs solana path).address := by
  obtain ⟨solana, hsolana, hbook⟩ := h
  refine ⟨solana, hsolana, ?_⟩
  have hentry : ∀ worker ∈ w.pool.workers,
      worker.address = (deriveWorker s.libs solana worker.path).address := by
    intro worker hworker
    have hmem : (⟨worker.path, worker.address⟩ : DerivedWorker) ∈ w.pool.book := by
      rw [WorkerPool.book, WorkerPool.standing, List.map_map]
      exact List.mem_map_of_mem (f := fun w : Worker => DerivedWorker.mk w.path w.address) hworker
    rw [hbook] at hmem
    obtain ⟨p, _, hp⟩ := List.mem_map.mp hmem
    have hpath : p = worker.path := congrArg DerivedWorker.path hp
    subst hpath
    exact (congrArg DerivedWorker.address hp).symm
  -- every worker is right, so the one found is
  obtain ⟨worker, hworker, rfl⟩ := List.mem_map.mp hpath
  cases hfind : w.pool.worker? worker.path with
  | none =>
    have hnone := List.find?_eq_none.mp hfind worker hworker
    simp at hnone
  | some found =>
    have hfound : found.path = worker.path := by
      simpa using List.find?_some hfind
    rw [WorkerPool.address, hfind, ← hfound]
    exact hentry found (List.mem_of_find?_eq_some hfind)

/-! ## Grants -/

/-- Whatever is granted is a path of the pool, and every address has been derived. -/
def GrantInv (w : World) : Prop :=
  ∀ call path, (call, .resolved path) ∈ w.pool.settled →
    path ∈ w.pool.paths ∧ .fulfilled ∈ w.derivations

/-- The grants of a stretch of code. -/
theorem performAll_grants (w : World) (who : Proc) (effects : List Effect) :
    ∃ new, (w.performAll who effects).pool.settled = w.pool.settled ++ new ∧
      ∀ call path, (call, .resolved path) ∈ new →
        path ∈ w.pool.paths ∧ ∃ effect ∈ effects, effect.movesLease = true := by
  induction effects generalizing w with
  | nil => exact ⟨[], by simp, nofun⟩
  | cons effect rest ih =>
    -- what the first call grants, and then the others
    obtain ⟨first, hfirst, hfit⟩ := effect.onPool_settled w.now w.pool
    obtain ⟨later, hlater, hpaths⟩ := ih (w.perform who effect)
    refine ⟨first ++ later, ?_, ?_⟩
    · rw [performAll_cons, hlater, perform_pool, hfirst, List.append_assoc]
    · intro call path hmem
      rcases List.mem_append.mp hmem with hmem | hmem
      · obtain ⟨hpath, hmoves⟩ := hfit call path hmem
        exact ⟨hpath.mem_paths, effect, List.mem_cons_self, hmoves⟩
      · obtain ⟨hpath, e, he, hmoves⟩ := hpaths call path hmem
        rw [perform_pool, ← WorkerPool.book_paths, WorkerPool.onPool_book,
          WorkerPool.book_paths] at hpath
        exact ⟨hpath, e, List.mem_cons_of_mem _ he, hmoves⟩

/-- A derivation that is fulfilled stays so. -/
theorem fulfilled_step {s : Setup} {w w' : World} {a : Action}
    (hstep : step s w a = some w') (h : .fulfilled ∈ w.derivations) :
    .fulfilled ∈ w'.derivations := by
  have hensure : ∀ w : World, .fulfilled ∈ w.derivations →
      .fulfilled ∈ (w.ensureAddresses s).1.derivations := by
    intro w h
    rcases ensureAddresses_cases w s with hsame | ⟨_, d, _, hjoined⟩
    · rwa [hsame]
    · rw [hjoined]
      exact List.mem_append_left _ h
  cases a with
  | start mode =>
    cases hstep
    unfold World.start
    dsimp only
    split
    · exact h
    · -- joining adds a derivation at most
      exact hensure _ h
  | getWorkers =>
    cases hstep
    exact hensure w h
  | resume job reply =>
    obtain ⟨_, _, _, _, _, rfl⟩ := step_resume hstep
    rw [performAll_derivations]
    exact h
  | resumeRequest request reply =>
    obtain ⟨_, _, _, _, _, rfl⟩ := step_resumeRequest hstep
    rw [performAll_derivations]
    exact h
  | resumeDerivation index reply =>
    simp only [step, Option.bind_eq_some_iff] at hstep
    obtain ⟨d, hd, hresume⟩ := hstep
    -- only a derivation in flight is replaced
    have hkeep : ∀ d', d ≠ .fulfilled → .fulfilled ∈ w.derivations.set index d' := by
      intro d' hne
      obtain ⟨i, hi⟩ := List.mem_iff_getElem?.mp h
      refine List.mem_of_getElem? (i := i) ?_
      rw [List.getElem?_set_ne, hi]
      rintro rfl
      rw [hd] at hi
      exact hne (Option.some.inj hi)
    cases resumeDerivation_stretch hresume <;> exact hkeep _ (by simp)
  | expire job =>
    obtain ⟨_, rfl⟩ := step_expire hstep
    exact h
  | respondDeadline job =>
    obtain ⟨_, _, _, rfl⟩ := step_respondDeadline hstep
    exact h
  | abortActiveJobs =>
    cases hstep
    exact h
  | clock now =>
    cases hstep
    exact h

/-- Applying addresses settles no promise of the pool. -/
theorem applyAddresses_settled (pool : WorkerPool) (derived : List DerivedWorker) :
    (applyAddresses pool derived).settled = pool.settled :=
  applyAddresses_invariant (fun after => after.settled = pool.settled) pool derived rfl
    fun _ _ _ h => h

/-- A job gets as far as the pool only once a derivation has been fulfilled. -/
theorem AddressInv.fulfilled_of_moves {s : Setup} {w : World} (h : AddressInv s w) {job : Nat}
    {f f' : Frame} {reply : Reply} {effects : List Effect} (hf : w.frames[job]? = some f)
    (hwf : f.Wf) (hresume : f.resume s w.view job reply = some (f', effects)) {effect : Effect}
    (heffect : effect ∈ effects) (hmoves : effect.movesLease = true) :
    .fulfilled ∈ w.derivations := by
  have hmem := List.mem_of_getElem? hf
  -- otherwise it stays short of `ensureAddresses`, and makes no such call
  by_contra hnone
  have hbefore : f.pc.pastAddresses = false := by
    rw [Bool.eq_false_iff]
    exact fun hpast => hnone (h.past f hmem hpast)
  have hafter : f'.pc.pastAddresses = false := by
    rw [Bool.eq_false_iff]
    intro hpast
    rcases Frame.resume_pastAddresses hresume hpast with hpast | ⟨d, hd⟩
    · exact hnone (h.past f hmem hpast)
    · exact hnone (fulfilled_of_derived hd)
  have hquiet := Frame.quiet_of_not_past hwf hresume hbefore hafter
  exact List.filter_eq_nil_iff.mp hquiet effect heffect hmoves

/-- Every step keeps the grants in order. -/
theorem grantInv_step {s : Setup} {w w' : World} {a : Action} (hleases : w.LeaseInv)
    (haddresses : AddressInv s w) (h : w.GrantInv) (hstep : step s w a = some w') :
    w'.GrantInv := by
  have haddresses' := addressInv_step haddresses hstep
  have hpaths : w'.pool.paths = w.pool.paths := haddresses'.paths.trans haddresses.paths.symm
  -- the grants made before stay in order
  have hold : ∀ call path, (call, .resolved path) ∈ w.pool.settled →
      path ∈ w'.pool.paths ∧ .fulfilled ∈ w'.derivations := by
    intro call path hmem
    obtain ⟨hpath, hfulfilled⟩ := h call path hmem
    exact ⟨hpaths ▸ hpath, fulfilled_step hstep hfulfilled⟩
  have hsame : w'.pool.settled = w.pool.settled → w'.GrantInv := by
    intro hsettled call path hmem
    rw [hsettled] at hmem
    exact hold call path hmem
  cases a with
  | start mode =>
    cases hstep
    exact hsame (congrArg WorkerPool.settled (start_pool w s mode))
  | getWorkers =>
    cases hstep
    exact hsame (congrArg WorkerPool.settled (ensureAddresses_pool w s))
  | resume job reply =>
    obtain ⟨f, f', effects, hf, hresume, rfl⟩ := step_resume hstep
    obtain ⟨new, hnew, hgrants⟩ :=
      performAll_grants { w with frames := w.frames.set job f' } (.job job) effects
    intro call path hsettled
    rw [hnew] at hsettled
    rcases List.mem_append.mp hsettled with hsettled | hsettled
    · exact hold call path hsettled
    · obtain ⟨hpath, effect, heffect, hmoves⟩ := hgrants call path hsettled
      refine ⟨hpaths ▸ hpath, ?_⟩
      rw [performAll_derivations]
      exact haddresses.fulfilled_of_moves hf (hleases.wf f (List.mem_of_getElem? hf)) hresume
        heffect hmoves
  | resumeRequest request reply =>
    obtain ⟨pc, pc', effects, _, hresume, rfl⟩ := step_resumeRequest hstep
    obtain ⟨new, hnew, hgrants⟩ :=
      performAll_grants { w with requests := w.requests.set request pc' } (.request request)
        effects
    intro call path hsettled
    rw [hnew] at hsettled
    rcases List.mem_append.mp hsettled with hsettled | hsettled
    · exact hold call path hsettled
    · obtain ⟨_, effect, heffect, hmoves⟩ := hgrants call path hsettled
      -- a request asks for no address
      cases resumeRequest_move hresume with
      | silent => cases heffect
      | refreshed | reconciled =>
        rw [List.mem_singleton.mp heffect] at hmoves
        cases hmoves
  | resumeDerivation index reply =>
    obtain ⟨pool, ready, derivations, rfl, hpool⟩ := step_resumeDerivation hstep
    refine hsame ?_
    rcases hpool with rfl | ⟨solana, derived, _, rfl, _⟩
    · rfl
    · exact applyAddresses_settled w.pool derived
  | expire job =>
    obtain ⟨_, rfl⟩ := step_expire hstep
    intro call path hmem
    have hmem : (call, .resolved path) ∈
        w.pool.settled ++ [(job, .rejected (.noWorkerAvailable .allBusy))] := hmem
    rcases List.mem_append.mp hmem with hmem | hmem
    · exact hold call path hmem
    · simp at hmem
  | respondDeadline job =>
    obtain ⟨_, _, _, rfl⟩ := step_respondDeadline hstep
    exact hsame rfl
  | abortActiveJobs =>
    cases hstep
    have hrejects := WorkerPool.rejectWaiters_invariant
      (fun pool => ∀ call path, (call, .resolved path) ∈ pool.settled →
        (call, .resolved path) ∈ w.pool.settled) w.pool
      (.other { message := "Process is shutting down" }) (fun _ _ hmem => hmem) ?_
    · exact fun call path hmem => hold call path (hrejects call path hmem)
    · intro pool call rest hpool _ call' path hmem
      rw [WorkerPool.settleWaiter_settled] at hmem
      rcases List.mem_append.mp hmem with hmem | hmem
      · exact hpool call' path hmem
      · simp at hmem
  | clock now =>
    cases hstep
    exact hsame rfl

/-- A path that was granted is one of the pool's, and its addresses were applied. -/
theorem grantInv_reachable {s : Setup} {start : Millis} {w : World}
    (h : Reachable (step s) (World.new s start) w) : w.GrantInv :=
  h.invariant' (fun _ _ hmem => nomatch hmem) fun _ _ _ hreach hinv _ hstep =>
    grantInv_step (leaseInv_reachable hreach) (addressInv_reachable hreach) hinv hstep

end World

end ContractPinger
