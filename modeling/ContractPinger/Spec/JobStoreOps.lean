import ContractPinger.Model.JobStore

/-!
# What each job store operation does

The store forgets finished records (`prune`), so an operation does not act on the records
one by one: it rewrites them by a function and then may drop some that are finished.
`Evolves g` says just that, and composes.

## Key results

- `prune_evolves` / `update_evolves`: the operations evolve the store
- `Evolves.comp`: evolutions compose while finished records stay finished
- `Evolves.countP_le`: an evolution that brings no record into a class does not raise its count
-/

namespace ContractPinger

/-- The patch a call makes on the record of one job. -/
def JobRecord.patchAt (id : Nat) (patch : JobPatch) (job : JobRecord) : JobRecord :=
  if job.id = id then job.apply patch else job

/-- The patches of one stretch of code on one record. -/
def JobRecord.patchAllAt (id : Nat) (patches : List JobPatch) (job : JobRecord) : JobRecord :=
  if job.id = id then patches.foldl JobRecord.apply job else job

@[simp] theorem JobRecord.apply_id (job : JobRecord) (patch : JobPatch) :
    (job.apply patch).id = job.id := rfl

@[simp] theorem JobRecord.patchAt_id (id : Nat) (patch : JobPatch) (job : JobRecord) :
    (job.patchAt id patch).id = job.id := by
  unfold patchAt
  split <;> rfl

@[simp] theorem JobRecord.patchAllAt_id (id : Nat) (patches : List JobPatch) (job : JobRecord) :
    (job.patchAllAt id patches).id = job.id := by
  unfold patchAllAt
  split
  · induction patches generalizing job with
    | nil => rfl
    | cons p rest ih => exact ih (job.apply p) ‹_›
  · rfl

/-- No patch touches the instant a job was accepted at. -/
@[simp] theorem JobRecord.patchAllAt_acceptedAt (id : Nat) (patches : List JobPatch)
    (job : JobRecord) :
    (job.patchAllAt id patches).timings.acceptedAt = job.timings.acceptedAt := by
  unfold patchAllAt
  split
  · induction patches generalizing job with
    | nil => rfl
    | cons p rest ih => exact ih (job.apply p) ‹_›
  · rfl

namespace JobStore

/-- The ids of the records, in insertion order. -/
def ids (store : JobStore) : List Nat := store.jobs.map JobRecord.id

/-- `after` holds the records of `before` rewritten by `g`, less some finished ones. -/
structure Evolves (g : JobRecord → JobRecord) (before after : JobStore) : Prop where
  sublist : after.jobs.Sublist (before.jobs.map g)
  keeps : ∀ r ∈ before.jobs, (g r).state.terminal = false → g r ∈ after.jobs
  maxJobs : after.maxJobs = before.maxJobs
  maxActiveJobs : after.maxActiveJobs = before.maxActiveJobs

/-- Doing nothing. -/
theorem Evolves.refl (store : JobStore) : Evolves id store store :=
  ⟨by simp, fun _ h _ => h, rfl, rfl⟩

/-! ## Records by id -/

/-- What is found is held, under the id asked for. -/
theorem mem_of_get? {store : JobStore} {id : Nat} {r : JobRecord} (h : store.get? id = some r) :
    r ∈ store.jobs ∧ r.id = id :=
  ⟨List.mem_of_find?_eq_some h, by simpa using List.find?_some h⟩

/-- What is held is found, ids being distinct. -/
theorem get?_of_mem {store : JobStore} (hnd : store.ids.Nodup) {r : JobRecord}
    (hr : r ∈ store.jobs) : store.get? r.id = some r :=
  List.find?_key_of_mem hnd hr

/-! ## Pruning -/

/-- `prune` drops finished records only. -/
theorem prune_evolves {store : JobStore} (hnd : store.ids.Nodup) :
    Evolves id store store.prune := by
  unfold prune
  dsimp only
  split
  · exact Evolves.refl store
  · refine ⟨by simp, fun r hr hlive => ?_, rfl, rfl⟩
    refine List.mem_filter.mpr ⟨hr, ?_⟩
    simp only [id_eq, Bool.not_eq_true', List.contains_eq_mem, decide_eq_false_iff_not,
      List.mem_map, not_exists, not_and]
    intro old hold hid
    -- a dropped record is finished, and no other record has its id
    have hfinished := List.mem_mergeSort.mp (List.mem_of_mem_take hold)
    obtain ⟨hmem, hterminal⟩ := List.mem_filter.mp hfinished
    have hsame : old = r := List.inj_on_of_nodup_map hnd hmem hr hid
    rw [hsame] at hterminal
    rw [id_eq] at hlive
    rw [hlive] at hterminal
    cases hterminal

/-! ## Composition -/

section Comp

variable {g g₁ g₂ : JobRecord → JobRecord} {s₁ s₂ s₃ : JobStore}

/-- Evolutions compose, provided the second leaves finished what the first has finished. -/
theorem Evolves.comp (h₁ : Evolves g₁ s₁ s₂) (h₂ : Evolves g₂ s₂ s₃)
    (hstay : ∀ r ∈ s₁.jobs, (g₁ r).state.terminal = true → (g₂ (g₁ r)).state.terminal = true) :
    Evolves (g₂ ∘ g₁) s₁ s₃ where
  sublist := by
    rw [← List.map_map]
    exact h₂.sublist.trans (h₁.sublist.map g₂)
  keeps r hr hlive := by
    -- live in the end, so live in between: nothing finished comes back
    have hlive₁ : (g₁ r).state.terminal = false := by
      by_contra hfin
      rw [Bool.not_eq_false] at hfin
      rw [Function.comp_apply, hstay r hr hfin] at hlive
      cases hlive
    exact h₂.keeps (g₁ r) (h₁.keeps r hr hlive₁) hlive
  maxJobs := h₂.maxJobs.trans h₁.maxJobs
  maxActiveJobs := h₂.maxActiveJobs.trans h₁.maxActiveJobs

/-- A record of the evolved store is a rewritten one. -/
theorem Evolves.mem (h : Evolves g s₁ s₂) {r' : JobRecord} (hr' : r' ∈ s₂.jobs) :
    ∃ r ∈ s₁.jobs, g r = r' :=
  List.mem_map.mp (h.sublist.subset hr')

/-- An evolution that keeps ids keeps them distinct. -/
theorem Evolves.ids_nodup (h : Evolves g s₁ s₂) (hid : ∀ r, (g r).id = r.id)
    (hnd : s₁.ids.Nodup) : s₂.ids.Nodup := by
  refine (h.sublist.map JobRecord.id).nodup ?_
  rw [List.map_map]
  have hsame : JobRecord.id ∘ g = JobRecord.id := funext hid
  rw [hsame]
  exact hnd

/-- A class of records that no record enters does not grow. -/
theorem Evolves.countP_le (h : Evolves g s₁ s₂) (p : JobRecord → Bool)
    (hp : ∀ r ∈ s₁.jobs, p (g r) = true → p r = true) :
    s₂.jobs.countP p ≤ s₁.jobs.countP p := by
  have hmap : (s₁.jobs.map g).countP p ≤ s₁.jobs.countP p := by
    rw [List.countP_map]
    exact List.countP_mono_left hp
  exact Nat.le_trans h.sublist.countP_le hmap

end Comp

/-! ## Updating and creating -/

/-- `update` patches one record. -/
theorem update_evolves {store : JobStore} (hnd : store.ids.Nodup) (id : Nat) (patch : JobPatch) :
    Evolves (JobRecord.patchAt id patch) store (store.update id patch) := by
  unfold update
  split
  · -- no such record: nothing changes
    rename_i hnone
    have hsame : ∀ r ∈ store.jobs, r.patchAt id patch = r := by
      intro r hr
      have hne : r.id ≠ id := by simpa using List.find?_eq_none.mp hnone r hr
      simp [JobRecord.patchAt, hne]
    refine ⟨?_, fun r hr _ => by rwa [hsame r hr], rfl, rfl⟩
    rw [List.map_congr_left hsame, List.map_id']
  · rename_i job hjob
    -- ids are distinct, so the record found is the only one rewritten
    have hjobs : (store.jobs.modifyFirst (fun j => j.id == id) fun j => j.apply patch) =
        store.jobs.map (JobRecord.patchAt id patch) :=
      List.modifyFirst_eq_map hnd id _
    have hpatched : Evolves (JobRecord.patchAt id patch) store
        { store with jobs := store.jobs.map (JobRecord.patchAt id patch) } :=
      ⟨List.Sublist.refl _, fun r hr _ => List.mem_map_of_mem hr, rfl, rfl⟩
    dsimp only
    rw [hjobs]
    split
    · -- the record is finished now, and the store is pruned
      have hnd' := hpatched.ids_nodup (fun r => r.patchAt_id id patch) hnd
      exact hpatched.comp (prune_evolves hnd') fun _ _ h => h
    · exact hpatched

/-- The patches of one stretch of code on one record, in order. -/
def updateAll (store : JobStore) (id : Nat) (patches : List JobPatch) : JobStore :=
  patches.foldl (fun store patch => store.update id patch) store

/-- No patch but the last one finishes the record. -/
def EndsLast (patches : List JobPatch) : Prop :=
  ∀ p ∈ patches.dropLast, ∀ state ∈ p.state, state.terminal = false

/-- A patch that does not finish a record leaves a live one live. -/
theorem apply_live {r : JobRecord} {p : JobPatch} (hr : r.state.terminal = false)
    (hp : ∀ state ∈ p.state, state.terminal = false) : (r.apply p).state.terminal = false := by
  show (p.state.getD r.state).terminal = false
  cases hstate : p.state with
  | none => exact hr
  | some state => exact hp state hstate

/-- A stretch of patches rewrites the one record, if only its last patch finishes it. -/
theorem updateAll_evolves {store : JobStore} {id : Nat} {patches : List JobPatch}
    (hnd : store.ids.Nodup) (hlive : ∀ r ∈ store.jobs, r.id = id → r.state.terminal = false)
    (hends : EndsLast patches) :
    Evolves (JobRecord.patchAllAt id patches) store (store.updateAll id patches) := by
  induction patches generalizing store with
  | nil =>
    have hid : JobRecord.patchAllAt id [] = fun r => r := by
      funext r
      unfold JobRecord.patchAllAt
      split <;> rfl
    rw [hid]
    exact Evolves.refl store
  | cons p rest ih =>
    have hfirst := update_evolves hnd id p
    cases rest with
    -- the last patch, which may finish the record
    | nil => exact hfirst
    | cons q rest =>
      -- a patch with more to come leaves the record live, so no pruning can take it
      have hp : ∀ state ∈ p.state, state.terminal = false := hends p (by simp)
      have hpatched : ∀ r ∈ store.jobs, r.id = id →
          (r.patchAt id p).state.terminal = false := by
        intro r hr hid
        rw [JobRecord.patchAt, if_pos hid]
        exact apply_live (hlive r hr hid) hp
      have hrest := ih (hfirst.ids_nodup (fun r => r.patchAt_id id p) hnd)
        (by
          intro r' hr' hid
          obtain ⟨r, hr, rfl⟩ := hfirst.mem hr'
          rw [JobRecord.patchAt_id] at hid
          exact hpatched r hr hid)
        (fun p' hp' => hends p' (by simp [hp']))
      have hcomp : JobRecord.patchAllAt id (p :: q :: rest) =
          JobRecord.patchAllAt id (q :: rest) ∘ JobRecord.patchAt id p := by
        funext r
        by_cases hr : r.id = id <;> simp [JobRecord.patchAllAt, JobRecord.patchAt, hr]
      rw [hcomp]
      refine hfirst.comp hrest fun r hr hfin => ?_
      -- only another job's record can be finished by now, and it is left alone
      have hne : r.id ≠ id := by
        intro hid
        rw [hpatched r hr hid] at hfin
        cases hfin
      rw [JobRecord.patchAllAt, if_neg (by simpa using hne)]
      exact hfin

/-- `create` adds one pending record at the end. -/
theorem create_evolves {store : JobStore} {job : Nat} (environment : Environment) (mode : TxMode)
    (now : Millis) (hnd : (store.ids ++ [job]).Nodup) :
    Evolves id { store with jobs := store.jobs ++ [newJob job environment mode now] }
      (store.create job environment mode now) := by
  -- the new id is fresh, so the ids stay distinct
  refine prune_evolves ?_
  rw [ids, List.map_append]
  exact hnd

end JobStore

end ContractPinger
