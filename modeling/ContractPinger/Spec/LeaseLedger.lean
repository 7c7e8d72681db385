import ContractPinger.Spec.WorkerPoolOps

/-!
# The ledger of leases

`release` goes by path and carries no lease token, so nothing in the pool itself says who
holds what. The ledger does: each caller has a `Tenure`, and `Ledger` ties the tenures of
all callers to the pool's `busy` flags, its queue and the promises it has settled. This
file shows what every operation of the pool does to the ledger.

## Key results

- `Ledger.acquireWithin`, `Ledger.expire`, `Ledger.release`, `Ledger.rejectWaiters`: the
  operations keep the ledger
- `Ledger.take` / `Ledger.leave`: so does a caller that receives its settlement
- `buildPaths_nodup`: the generated paths are distinct
-/

namespace ContractPinger

/-- Where a caller stands with the pool. -/
inductive Tenure
  /-- Has not called `acquireWithin`. -/
  | idle
  /-- Suspended on the promise of `acquireWithin`. -/
  | waiting
  | holding (path : String)
  /-- Holds nothing, and will not call again. -/
  | over
deriving DecidableEq, Repr

namespace WorkerPool

/-- What the ledger reads of the workers. -/
def occupancy (pool : WorkerPool) : List (String × Bool) :=
  pool.workers.map fun w => (w.path, w.busy)

/-- The calls whose promise is pending or settled. -/
def calls (pool : WorkerPool) : List Nat := pool.waiters ++ pool.settled.map Prod.fst

/-- `caller` holds `path`, or has been granted it and has not resumed yet. -/
def Holds (tenure : Nat → Tenure) (pool : WorkerPool) (caller : Nat) (path : String) : Prop :=
  tenure caller = .holding path ∨
    tenure caller = .waiting ∧ (caller, .resolved path) ∈ pool.settled

/-- The books of the pool: who waits, who has been settled, and who holds what. -/
structure Ledger (tenure : Nat → Tenure) (pool : WorkerPool) : Prop where
  paths_nodup : (pool.occupancy.map Prod.fst).Nodup
  timers_eq : pool.timers = pool.waiters
  calls_nodup : pool.calls.Nodup
  queued : ∀ i ∈ pool.waiters, tenure i = .waiting
  asked : ∀ i ∈ pool.calls, tenure i ≠ .idle
  granted : ∀ i path, tenure i = .holding path → (i, .resolved path) ∈ pool.settled
  exclusive : ∀ i j path, pool.Holds tenure i path → pool.Holds tenure j path → i = j
  busy_iff : ∀ path, (path, true) ∈ pool.occupancy ↔ ∃ i, pool.Holds tenure i path

variable {tenure tenure' : Nat → Tenure} {pool pool' : WorkerPool} {i : Nat} {now : Millis}

/-- A new pool agrees with jobs that hold nothing. -/
theorem Ledger.new {paths : List String} (hnd : paths.Nodup) (hidle : ∀ i, tenure i = .idle) :
    Ledger tenure (WorkerPool.new paths) := by
  have hnone : ∀ i path, ¬ (WorkerPool.new paths).Holds tenure i path := by
    rintro i path (h | ⟨h, _⟩) <;> rw [hidle] at h <;> cases h
  refine ⟨?_, rfl, List.nodup_nil, (fun _ h => nomatch h), (fun _ h => nomatch h),
    fun i path h => absurd (.inl h) (hnone i path), fun i _ path h => absurd h (hnone i path),
    fun path => ?_⟩
  · simpa [occupancy, WorkerPool.new, Function.comp_def] using hnd
  · -- no worker is busy, and nobody holds anything
    refine iff_of_false ?_ fun ⟨i, h⟩ => hnone i path h
    simp [occupancy, WorkerPool.new]

/-! ## Changes outside the ledger -/

/-- A pool with the same occupancy, queue and settlements has the same ledger. -/
theorem Ledger.congr (h : Ledger tenure pool) (hocc : pool'.occupancy = pool.occupancy)
    (hwaiters : pool'.waiters = pool.waiters) (htimers : pool'.timers = pool.timers)
    (hsettled : pool'.settled = pool.settled) : Ledger tenure pool' := by
  have hcalls : pool'.calls = pool.calls := by rw [calls, calls, hwaiters, hsettled]
  have hholds : ∀ i path, pool'.Holds tenure i path ↔ pool.Holds tenure i path := by
    intro i path
    rw [Holds, Holds, hsettled]
  refine ⟨hocc ▸ h.paths_nodup, ?_, hcalls ▸ h.calls_nodup, hwaiters ▸ h.queued,
    hcalls ▸ h.asked, hsettled ▸ h.granted, ?_, ?_⟩
  · rw [htimers, hwaiters]
    exact h.timers_eq
  · intro i j path hi hj
    exact h.exclusive i j path ((hholds i path).mp hi) ((hholds j path).mp hj)
  · intro path
    rw [hocc, h.busy_iff]
    exact exists_congr fun i => (hholds i path).symm

/-- Changing a worker but neither its path nor its `busy` flag keeps the ledger. -/
theorem Ledger.modifyWorker (h : Ledger tenure pool) (path : String) {f : Worker → Worker}
    (hf : ∀ w, (f w).path = w.path ∧ (f w).busy = w.busy) :
    Ledger tenure (pool.modifyWorker path f) := by
  refine h.congr ?_ rfl rfl rfl
  refine List.map_modifyFirst (fun w => ?_) _
  rw [(hf w).1, (hf w).2]

/-! ## Settling a queued call -/

/-- What a caller holds it was granted. -/
theorem Ledger.mem_settled (h : Ledger tenure pool) {path : String}
    (hp : pool.Holds tenure i path) : (i, .resolved path) ∈ pool.settled := by
  rcases hp with hp | ⟨_, hp⟩
  · exact h.granted i path hp
  · exact hp

/-- A call is settled once. -/
theorem Ledger.outcome_unique (h : Ledger tenure pool) {outcome outcome' : Settlement}
    (ho : (i, outcome) ∈ pool.settled) (ho' : (i, outcome') ∈ pool.settled) :
    outcome = outcome' := by
  have hkeys : (pool.settled.map Prod.fst).Nodup := h.calls_nodup.of_append_right
  exact congrArg Prod.snd (List.inj_on_of_nodup_map hkeys ho ho' rfl)

/-- A caller holds at most one path. -/
theorem Ledger.path_unique (h : Ledger tenure pool) {path path' : String}
    (hp : pool.Holds tenure i path) (hp' : pool.Holds tenure i path') : path = path' :=
  Settlement.resolved.inj (h.outcome_unique (h.mem_settled hp) (h.mem_settled hp'))

/-- A queued call has not been settled. -/
theorem Ledger.not_settled (h : Ledger tenure pool) (hi : i ∈ pool.waiters)
    (outcome : Settlement) : (i, outcome) ∉ pool.settled := by
  intro hmem
  have hdisjoint := List.disjoint_of_nodup_append h.calls_nodup
  exact hdisjoint hi (List.mem_map_of_mem hmem)

/-- A queued call holds nothing. -/
theorem Ledger.not_holds (h : Ledger tenure pool) (hi : i ∈ pool.waiters) (path : String) :
    ¬ pool.Holds tenure i path :=
  fun hp => h.not_settled hi _ (h.mem_settled hp)

/-- Take a queued call off the queue, with its timer. -/
def dequeue (pool : WorkerPool) (call : Nat) : WorkerPool :=
  { pool with waiters := pool.waiters.erase call, timers := pool.timers.erase call }

/-- Settling moves a call from the queue to the settlements. -/
theorem calls_dequeue_settle (hi : i ∈ pool.waiters) (outcome : Settlement) :
    ((pool.dequeue i).settle i outcome).calls.Perm pool.calls := by
  have hperm : (i :: (pool.waiters.erase i ++ pool.settled.map Prod.fst)).Perm
      (pool.waiters ++ pool.settled.map Prod.fst) := by
    rw [← List.cons_append]
    exact (List.perm_cons_erase hi).symm.append_right _
  refine List.Perm.trans ?_ hperm
  simp only [calls, dequeue, settle, List.map_append, List.map_cons, List.map_nil]
  rw [← List.append_assoc]
  exact List.perm_append_singleton i _

/-- Rejecting a queued call keeps the ledger. -/
theorem Ledger.reject (h : Ledger tenure pool) (hi : i ∈ pool.waiters) (error : JobError) :
    Ledger tenure ((pool.dequeue i).settle i (.rejected error)) := by
  -- the call moves from the queue to the settlements
  have hperm := calls_dequeue_settle hi (.rejected error)
  -- and a rejection gives nobody a worker
  have hholds : ∀ j path, ((pool.dequeue i).settle i (.rejected error)).Holds tenure j path ↔
      pool.Holds tenure j path := by
    intro j path
    simp only [Holds, settle_settled, dequeue, List.mem_append, List.mem_singleton,
      Prod.mk.injEq, reduceCtorEq, and_false, or_false]
  refine ⟨h.paths_nodup, ?_, hperm.nodup_iff.mpr h.calls_nodup, ?_, ?_, ?_, ?_, ?_⟩
  · show pool.timers.erase i = pool.waiters.erase i
    rw [h.timers_eq]
  · exact fun j hj => h.queued j (List.mem_of_mem_erase hj)
  · exact fun j hj => h.asked j (hperm.mem_iff.mp hj)
  · exact fun j path hj => List.mem_append_left _ (h.granted j path hj)
  · intro j k path hj hk
    exact h.exclusive j k path ((hholds j path).mp hj) ((hholds k path).mp hk)
  · intro path
    refine (h.busy_iff path).trans ?_
    exact exists_congr fun j => (hholds j path).symm

/-- What `acquire` does to the occupancy: one free path becomes busy. -/
theorem acquire_occupancy (hnd : (pool.occupancy.map Prod.fst).Nodup) {path : String}
    {leased : WorkerPool} (hok : pool.acquire now = .ok (path, leased)) :
    (path, true) ∉ pool.occupancy ∧
      (leased.occupancy.map Prod.fst = pool.occupancy.map Prod.fst) ∧
      ∀ p, (p, true) ∈ leased.occupancy ↔ p = path ∨ (p, true) ∈ pool.occupancy := by
  obtain ⟨candidate, hfind, rfl, rfl⟩ := acquire_ok hok
  have hmem := List.mem_of_find?_eq_some hfind
  have hfree : candidate.busy = false := by
    have havail := List.find?_some hfind
    simp only [Worker.available, Bool.and_eq_true, Bool.not_eq_true'] at havail
    exact havail.1.1
  have hpaths : (pool.workers.map Worker.path).Nodup := by
    rw [occupancy, List.map_map] at hnd
    exact hnd
  -- the paths are distinct, so the one marked is known by its path
  have hsame : ∀ w ∈ pool.workers, w.path = candidate.path → w = candidate :=
    fun w hw hp => List.inj_on_of_nodup_map hpaths hw hmem hp
  have hbusy : ∀ p, (p, true) ∈ pool.occupancy ↔
      ∃ w ∈ pool.workers, w.path = p ∧ w.busy = true := by
    simp [occupancy]
  have hmod : pool.workers.modifyFirst Worker.available (Worker.lease now) =
      pool.workers.map fun w => if w.path = candidate.path then w.lease now else w := by
    rw [List.modifyFirst_eq_of_find hpaths hfind, List.modifyFirst_eq_map hpaths]
  refine ⟨?_, ?_, fun p => ?_⟩
  · rw [hbusy]
    rintro ⟨w, hw, hp, hb⟩
    rw [hsame w hw hp, hfree] at hb
    cases hb
  · rw [occupancy, occupancy, List.map_map, List.map_map]
    exact List.map_modifyFirst (f := Worker.lease now) (fun _ => rfl) _
  · rw [hbusy]
    simp only [occupancy, hmod, List.map_map, List.mem_map, Function.comp_apply, Prod.mk.injEq]
    constructor
    · rintro ⟨w, hw, hp, hb⟩
      by_cases hc : w.path = candidate.path
      · rw [if_pos hc] at hp
        exact .inl (hp.symm.trans hc)
      · rw [if_neg hc] at hp hb
        exact .inr ⟨w, hw, hp, hb⟩
    · rintro (rfl | ⟨w, hw, rfl, hb⟩)
      · exact ⟨candidate, hmem, by rw [if_pos rfl]; exact ⟨rfl, rfl⟩⟩
      · -- a busy worker is not the one handed out
        have hne : w.path ≠ candidate.path := by
          intro hc
          rw [hsame w hw hc, hfree] at hb
          cases hb
        exact ⟨w, hw, by rw [if_neg hne]; exact ⟨rfl, hb⟩⟩

/-- Granting a worker to a queued call keeps the ledger. -/
theorem Ledger.grant (h : Ledger tenure pool) (hi : i ∈ pool.waiters) {path : String}
    {leased : WorkerPool} (hok : pool.acquire now = .ok (path, leased)) :
    Ledger tenure ((leased.dequeue i).settle i (.resolved path)) := by
  obtain ⟨hfree, hpaths, hbusy⟩ := acquire_occupancy h.paths_nodup hok
  have hsettled := acquire_settled hok
  have hwaiters := acquire_waiters hok
  have htimers : leased.timers = pool.timers := by
    obtain ⟨_, _, _, rfl⟩ := acquire_ok hok
    rfl
  have hperm : ((leased.dequeue i).settle i (.resolved path)).calls.Perm pool.calls := by
    have hcalls : leased.calls = pool.calls := by rw [calls, calls, hwaiters, hsettled]
    rw [← hcalls]
    exact calls_dequeue_settle (hwaiters ▸ hi) _
  -- the grantee holds the path now, and everyone else what they held before
  have hholds : ∀ j p, ((leased.dequeue i).settle i (.resolved path)).Holds tenure j p ↔
      j = i ∧ p = path ∨ pool.Holds tenure j p := by
    intro j p
    simp only [Holds, settle_settled, dequeue, hsettled, List.mem_append, List.mem_singleton,
      Prod.mk.injEq, Settlement.resolved.injEq]
    constructor
    · rintro (hj | ⟨hwait, hj | hj⟩)
      · exact .inr (.inl hj)
      · exact .inr (.inr ⟨hwait, hj⟩)
      · exact .inl hj
    · rintro (⟨rfl, rfl⟩ | hj | ⟨hwait, hj⟩)
      · exact .inr ⟨h.queued j hi, .inr ⟨rfl, rfl⟩⟩
      · exact .inl hj
      · exact .inr ⟨hwait, .inl hj⟩
  refine ⟨?_, ?_, hperm.nodup_iff.mpr h.calls_nodup, ?_, ?_, ?_, ?_, ?_⟩
  · show (leased.occupancy.map Prod.fst).Nodup
    -- leasing renames no worker
    rw [hpaths]
    exact h.paths_nodup
  · show leased.timers.erase i = leased.waiters.erase i
    rw [htimers, hwaiters, h.timers_eq]
  · intro j hj
    have hj' : j ∈ leased.waiters.erase i := hj
    rw [hwaiters] at hj'
    exact h.queued j (List.mem_of_mem_erase hj')
  · exact fun j hj => h.asked j (hperm.mem_iff.mp hj)
  · intro j p hj
    have hmem := h.granted j p hj
    rw [← hsettled] at hmem
    exact List.mem_append_left _ hmem
  · intro j k p hj hk
    -- nobody held the path, and the grantee held nothing
    have hunheld : ∀ j, ¬ pool.Holds tenure j path :=
      fun j hj => hfree ((h.busy_iff path).mpr ⟨j, hj⟩)
    rcases (hholds j p).mp hj with ⟨hji, hjp⟩ | hj'
    · rcases (hholds k p).mp hk with ⟨hki, _⟩ | hk'
      · rw [hji, hki]
      · exact absurd (hjp ▸ hk') (hunheld k)
    · rcases (hholds k p).mp hk with ⟨_, hkp⟩ | hk'
      · exact absurd (hkp ▸ hj') (hunheld j)
      · exact h.exclusive j k p hj' hk'
  · intro p
    refine (hbusy p).trans ?_
    rw [h.busy_iff]
    constructor
    · rintro (rfl | ⟨j, hj⟩)
      · exact ⟨i, (hholds i p).mpr (.inl ⟨rfl, rfl⟩)⟩
      · exact ⟨j, (hholds j p).mpr (.inr hj)⟩
    · rintro ⟨j, hj⟩
      rcases (hholds j p).mp hj with ⟨_, rfl⟩ | hj
      · exact .inl rfl
      · exact .inr ⟨j, hj⟩

/-! ## The operations -/

/-- A new call joins the queue. -/
theorem Ledger.enqueue (h : Ledger tenure pool) (hidle : tenure i = .idle)
    (hwait : tenure' i = .waiting) (hsame : ∀ j, j ≠ i → tenure' j = tenure j) :
    Ledger tenure' { pool with waiters := pool.waiters ++ [i], timers := pool.timers ++ [i] } := by
  -- a caller that is idle has no call on the books
  have hnew : i ∉ pool.calls := fun hmem => h.asked i hmem hidle
  have hne : ∀ j ∈ pool.calls, j ≠ i := fun j hj hji => hnew (hji ▸ hj)
  have hperm : (WorkerPool.calls
      { pool with waiters := pool.waiters ++ [i], timers := pool.timers ++ [i] }).Perm
      (i :: pool.calls) := by
    simp only [calls, List.append_assoc, List.singleton_append]
    exact List.perm_middle
  have hholds : ∀ j path, Holds tenure'
      { pool with waiters := pool.waiters ++ [i], timers := pool.timers ++ [i] } j path ↔
      pool.Holds tenure j path := by
    intro j path
    by_cases hj : j = i
    · subst hj
      have hunsettled : (j, Settlement.resolved path) ∉ pool.settled := fun hmem =>
        hnew (List.mem_append_right _ (List.mem_map_of_mem hmem))
      simp [Holds, hidle, hwait, hunsettled]
    · simp [Holds, hsame j hj]
  refine ⟨h.paths_nodup, ?_, ?_, ?_, ?_, ?_, ?_, ?_⟩
  · show pool.timers ++ [i] = pool.waiters ++ [i]
    rw [h.timers_eq]
  · exact hperm.nodup_iff.mpr (List.nodup_cons.mpr ⟨hnew, h.calls_nodup⟩)
  · intro j hj
    rcases List.mem_append.mp hj with hj | hj
    · rw [hsame j (hne j (List.mem_append_left _ hj))]
      exact h.queued j hj
    · rw [List.mem_singleton.mp hj]
      exact hwait
  · intro j hj
    rcases List.mem_cons.mp (hperm.mem_iff.mp hj) with rfl | hj
    · rw [hwait]
      exact nofun
    · rw [hsame j (hne j hj)]
      exact h.asked j hj
  · intro j path hj
    refine h.granted j path ?_
    rw [← hsame j]
    · exact hj
    · rintro rfl
      rw [hwait] at hj
      cases hj
  · intro j k path hj hk
    exact h.exclusive j k path ((hholds j path).mp hj) ((hholds k path).mp hk)
  · intro path
    refine (h.busy_iff path).trans ?_
    exact exists_congr fun j => (hholds j path).symm

/-- `acquireWithin`: granted, rejected or queued, the caller is on the books. -/
theorem Ledger.acquireWithin (h : Ledger tenure pool) (hidle : tenure i = .idle)
    (hwait : tenure' i = .waiting) (hsame : ∀ j, j ≠ i → tenure' j = tenure j) :
    Ledger tenure' (pool.acquireWithin i now) := by
  have hnew : i ∉ pool.waiters := fun hmem =>
    h.asked i (List.mem_append_left _ hmem) hidle
  have hqueued := h.enqueue hidle hwait hsame
  have hmem : i ∈ pool.waiters ++ [i] := List.mem_append_right _ (List.mem_singleton_self i)
  -- joining the queue and leaving it again changes nothing
  have herase : (pool.waiters ++ [i]).erase i = pool.waiters := by
    rw [List.erase_append_right _ hnew]
    simp
  have htimers : (pool.timers ++ [i]).erase i = pool.timers := by
    rw [h.timers_eq]
    exact herase
  unfold WorkerPool.acquireWithin
  split
  · -- granted at once: as if queued, then served
    rename_i path leased hok
    obtain ⟨candidate, hfind, hpath, rfl⟩ := acquire_ok hok
    have hok' : WorkerPool.acquire
        { pool with waiters := pool.waiters ++ [i], timers := pool.timers ++ [i] } now =
        .ok (path, { pool with
          workers := pool.workers.modifyFirst Worker.available (Worker.lease now)
          waiters := pool.waiters ++ [i]
          timers := pool.timers ++ [i] }) := by
      simp only [acquire, hfind, hpath]
    have hgranted := hqueued.grant hmem hok'
    rw [dequeue, herase, htimers] at hgranted
    exact hgranted
  · -- rejected at once: as if queued, then rejected
    have hrejected := hqueued.reject hmem (.noWorkerAvailable .allUnderfunded)
    rw [dequeue, herase, htimers] at hrejected
    exact hrejected
  · exact hqueued

/-- A waiter's timer fires. -/
theorem Ledger.expire (h : Ledger tenure pool) (hi : i ∈ pool.timers) :
    Ledger tenure (pool.expire i) :=
  h.reject (h.timers_eq ▸ hi) (.noWorkerAvailable .allBusy)

/-- The head of the queue is what the loops take off it. -/
private theorem dequeue_head {rest : List Nat} (hq : pool'.waiters = i :: rest)
    (outcome : Settlement) :
    ({ pool' with waiters := rest }.settleWaiter i outcome) =
      (pool'.dequeue i).settle i outcome := by
  rw [settleWaiter, dequeue, hq, List.erase_cons_head]

/-- Handing freed addresses to the queue keeps the ledger. -/
theorem Ledger.handOff (h : Ledger tenure pool) (now : Millis) :
    Ledger tenure (pool.handOff now) := by
  refine handOff_invariant (Ledger tenure) pool now h ?_
  intro pool leased call rest path hledger hq hok
  have hmem : call ∈ pool.waiters := by
    rw [hq]
    exact List.mem_cons_self
  rw [dequeue_head ((acquire_waiters hok).trans hq)]
  exact hledger.grant hmem hok

/-- So does abandoning the queue. -/
theorem Ledger.rejectWaiters (h : Ledger tenure pool) (error : JobError) :
    Ledger tenure (pool.rejectWaiters error) := by
  refine rejectWaiters_invariant (Ledger tenure) pool error h ?_
  intro pool call rest hledger hq
  have hmem : call ∈ pool.waiters := by
    rw [hq]
    exact List.mem_cons_self
  rw [dequeue_head hq]
  exact hledger.reject hmem error

/-- A caller whose holdings stay as they are may change its tenure. -/
theorem Ledger.retenure (h : Ledger tenure pool) (hsame : ∀ j, j ≠ i → tenure' j = tenure j)
    (hholds : ∀ path, pool.Holds tenure' i path ↔ pool.Holds tenure i path)
    (hqueued : i ∉ pool.waiters) (hasked : tenure' i ≠ .idle) : Ledger tenure' pool := by
  -- nobody's holdings have changed
  have hall : ∀ j path, pool.Holds tenure' j path ↔ pool.Holds tenure j path := by
    intro j path
    by_cases hj : j = i
    · rw [hj]
      exact hholds path
    · rw [Holds, Holds, hsame j hj]
  refine ⟨h.paths_nodup, h.timers_eq, h.calls_nodup, ?_, ?_, ?_, ?_, ?_⟩
  · intro j hj
    have hne : j ≠ i := fun hji => hqueued (hji ▸ hj)
    rw [hsame j hne]
    exact h.queued j hj
  · intro j hj
    by_cases hji : j = i
    · rw [hji]
      exact hasked
    · rw [hsame j hji]
      exact h.asked j hj
  · intro j path hj
    exact h.mem_settled ((hall j path).mp (.inl hj))
  · intro j k path hj hk
    exact h.exclusive j k path ((hall j path).mp hj) ((hall k path).mp hk)
  · intro path
    refine (h.busy_iff path).trans ?_
    exact exists_congr fun j => (hall j path).symm

/-- A settled call is off the queue. -/
theorem Ledger.not_queued (h : Ledger tenure pool) {outcome : Settlement}
    (hset : pool.settlement i = some outcome) :
    (i, outcome) ∈ pool.settled ∧ i ∉ pool.waiters := by
  have hmem : (i, outcome) ∈ pool.settled := by
    obtain ⟨before, after, heq, _⟩ := List.lookup_eq_some_iff.mp hset
    rw [heq]
    exact List.mem_append_right _ List.mem_cons_self
  exact ⟨hmem, fun hi => h.not_settled hi outcome hmem⟩

/-- The caller of a granted call resumes: it holds what it was granted. -/
theorem Ledger.take (h : Ledger tenure pool) {path : String} (hwait : tenure i = .waiting)
    (hset : pool.settlement i = some (.resolved path)) (hhold : tenure' i = .holding path)
    (hsame : ∀ j, j ≠ i → tenure' j = tenure j) : Ledger tenure' pool := by
  obtain ⟨hmem, hqueued⟩ := h.not_queued hset
  -- the grant it hears of is the one it already holds by
  have hgrant : pool.Holds tenure i path := .inr ⟨hwait, hmem⟩
  refine h.retenure hsame (fun p => ?_) hqueued (by rw [hhold]; exact nofun)
  constructor
  · rintro (hp | ⟨hp, _⟩)
    · rw [hhold] at hp
      exact Tenure.holding.inj hp ▸ hgrant
    · rw [hhold] at hp
      cases hp
  · -- nobody holds two addresses
    intro hp
    rw [h.path_unique hp hgrant]
    exact .inl hhold

/-- A caller that holds nothing and is not queued leaves. -/
theorem Ledger.leave (h : Ledger tenure pool) (hnone : ∀ path, ¬ pool.Holds tenure i path)
    (hqueued : i ∉ pool.waiters) (hover : tenure' i = .over)
    (hsame : ∀ j, j ≠ i → tenure' j = tenure j) : Ledger tenure' pool := by
  refine h.retenure hsame (fun p => ?_) hqueued (by rw [hover]; exact nofun)
  refine iff_of_false ?_ (hnone p)
  rintro (hp | ⟨hp, _⟩) <;> rw [hover] at hp <;> cases hp

/-- A call that was rejected holds nothing. -/
theorem Ledger.rejected_holds_nothing (h : Ledger tenure pool) {error : JobError}
    (hmem : (i, .rejected error) ∈ pool.settled) (path : String) :
    ¬ pool.Holds tenure i path :=
  fun hp => nomatch h.outcome_unique hmem (h.mem_settled hp)

/-- The holder of a path releases it, and the queue is served. -/
theorem Ledger.release (h : Ledger tenure pool) {path : String} (hhold : tenure i = .holding path)
    (hover : tenure' i = .over) (hsame : ∀ j, j ≠ i → tenure' j = tenure j) (now : Millis) :
    Ledger tenure' (pool.release path now) := by
  have hi : pool.Holds tenure i path := .inl hhold
  have hnotqueued : i ∉ pool.waiters := fun hmem => h.not_holds hmem path hi
  have hpaths : (pool.workers.map Worker.path).Nodup := by
    have hnd := h.paths_nodup
    rw [occupancy, List.map_map] at hnd
    exact hnd
  have hmod : (pool.workers.modifyFirst (fun w => w.path == path) fun w => { w with busy := false })
      = pool.workers.map fun w => if w.path = path then { w with busy := false } else w :=
    List.modifyFirst_eq_map hpaths path _
  have hocc : ∀ p,
      (p, true) ∈ (pool.modifyWorker path fun w => { w with busy := false }).occupancy ↔
        p ≠ path ∧ (p, true) ∈ pool.occupancy := by
    intro p
    simp only [occupancy, WorkerPool.modifyWorker, hmod, List.map_map, List.mem_map,
      Function.comp_apply, Prod.mk.injEq]
    constructor
    · rintro ⟨w, hw, hp, hb⟩
      by_cases hc : w.path = path
      · rw [if_pos hc] at hb
        cases hb
      · rw [if_neg hc] at hp hb
        exact ⟨hp ▸ hc, w, hw, hp, hb⟩
    · rintro ⟨hne, w, hw, rfl, hb⟩
      exact ⟨w, hw, by rw [if_neg hne]; exact ⟨rfl, hb⟩⟩
  -- with the path given back, everyone else holds what they held before
  have hholds : ∀ j p,
      Holds tenure' (pool.modifyWorker path fun w => { w with busy := false }) j p ↔
        j ≠ i ∧ pool.Holds tenure j p := by
    intro j p
    by_cases hj : j = i
    · subst hj
      simp [Holds, hover]
    · simp [Holds, hsame j hj, hj]
  have hfreed : Ledger tenure' (pool.modifyWorker path fun w => { w with busy := false }) := by
    refine ⟨?_, h.timers_eq, h.calls_nodup, ?_, ?_, ?_, ?_, ?_⟩
    · have hmap :
          (pool.modifyWorker path fun w => { w with busy := false }).occupancy.map Prod.fst =
            pool.occupancy.map Prod.fst := by
        rw [occupancy, occupancy, List.map_map, List.map_map]
        exact List.map_modifyFirst (f := fun w : Worker => { w with busy := false })
          (fun _ => rfl) _
      rw [hmap]
      exact h.paths_nodup
    · intro j hj
      rw [hsame j fun hji => hnotqueued (hji ▸ hj)]
      exact h.queued j hj
    · intro j hj
      by_cases hji : j = i
      · rw [hji, hover]
        simp
      · rw [hsame j hji]
        exact h.asked j hj
    · exact fun j p hj => h.mem_settled ((hholds j p).mp (.inl hj)).2
    · intro j k p hj hk
      exact h.exclusive j k p ((hholds j p).mp hj).2 ((hholds k p).mp hk).2
    · intro p
      rw [hocc, h.busy_iff]
      constructor
      · rintro ⟨hne, j, hj⟩
        -- another path has another holder: a caller holds one at most
        refine ⟨j, (hholds j p).mpr ⟨?_, hj⟩⟩
        rintro rfl
        exact hne (h.path_unique hj hi)
      · rintro ⟨j, hj⟩
        obtain ⟨hne, hj'⟩ := (hholds j p).mp hj
        -- and another holder another path
        refine ⟨?_, j, hj'⟩
        rintro rfl
        exact hne (h.exclusive j i p hj' hi)
  exact hfreed.handOff now

end WorkerPool

/-! ## The generated paths -/

/-- `buildPaths` generates distinct paths, for any prefix and count. -/
theorem buildPaths_nodup (pathPrefix : String) (count : Nat) :
    (buildPaths pathPrefix count).Nodup := by
  refine List.Nodup.map ?_ List.nodup_range
  intro i j hij
  -- the paths differ in the decimal digits of their slot alone
  have hrepr : Nat.repr i = Nat.repr j := (String.append_right_inj _).mp hij
  have hdigits : Nat.toDigits 10 i = Nat.toDigits 10 j := by
    rw [← Nat.toList_repr, ← Nat.toList_repr, hrepr]
  rw [← Nat.ofDigitChars_ten_toDigits (n := i), hdigits, Nat.ofDigitChars_ten_toDigits]

end ContractPinger
