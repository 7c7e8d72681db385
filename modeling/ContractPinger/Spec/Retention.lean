import ContractPinger.ForStd.Machine
import ContractPinger.ForStd.TopK
import ContractPinger.Spec.JobStoreOps

/-!
# What the job store retains

A run of the store is any sequence of `create`, `update` and `fail` in which a finished
record is not written again. Beside the store the run keeps the full history: every record
ever created, as it was last written. The store prunes as it goes; the history does not.

## Key results

- `prune_topK`: one pruning keeps the `retained` finished records that finished last
- `Retains.prune`: pruning what is held prunes the whole history
- `retention_exact`: after every call the store holds every live job and a newest set of
  `retained` finished ones
-/

namespace ContractPinger

open Machine

/-- The finished records of a list. -/
def finished (jobs : List JobRecord) : Finset JobRecord :=
  (jobs.filter fun j => j.state.terminal).toFinset

@[simp] theorem mem_finished {jobs : List JobRecord} {r : JobRecord} :
    r ∈ finished jobs ↔ r ∈ jobs ∧ r.state.terminal = true := by
  simp [finished]

/-- Distinct records are counted by the set of them. -/
theorem card_finished {jobs : List JobRecord} (hnd : (jobs.map JobRecord.id).Nodup) :
    (finished jobs).card = jobs.countP fun j => j.state.terminal := by
  have hnodup := (List.Nodup.of_map JobRecord.id hnd).filter fun j => j.state.terminal
  rw [finished, List.toFinset_card_of_nodup hnodup, List.countP_eq_length_filter]

namespace JobStore

variable {store : JobStore}

@[simp] theorem prune_retained : store.prune.retained = store.retained := by
  unfold prune
  dsimp only
  split <;> rfl

/-- No patch changes how many are retained. -/
theorem update_retained (id : Nat) (patch : JobPatch) :
    (store.update id patch).retained = store.retained := by
  unfold update
  split
  · rfl
  · dsimp only
    split
    · exact prune_retained
    · rfl

/-- With no more finished than are retained nothing is dropped. -/
theorem prune_eq_self (h : (store.jobs.countP fun j => j.state.terminal) ≤ store.retained) :
    store.prune = store := by
  rw [List.countP_eq_length_filter] at h
  unfold prune
  dsimp only
  rw [if_pos h]

/-- The finished records, those that finished first in front. -/
def byAge (store : JobStore) : List JobRecord :=
  (store.jobs.filter fun j => j.state.terminal).mergeSort fun a b =>
    decide (a.finishedAt ≤ b.finishedAt)

/-- How many finished records there are too many. -/
def surplus (store : JobStore) : Nat :=
  (store.jobs.filter fun j => j.state.terminal).length - store.retained

/-- What is ordered by age are the finished records. -/
theorem mem_byAge {r : JobRecord} :
    r ∈ store.byAge ↔ r ∈ store.jobs ∧ r.state.terminal = true := by
  rw [byAge, List.mem_mergeSort, List.mem_filter]

/-- What pruning keeps, once there is a surplus: all but the front of the list by age. -/
theorem mem_prune_iff (hnd : store.ids.Nodup)
    (hmany : ¬ (store.jobs.countP fun j => j.state.terminal) ≤ store.retained) {r : JobRecord} :
    r ∈ store.prune.jobs ↔ r ∈ store.jobs ∧ r ∉ store.byAge.take store.surplus := by
  rw [List.countP_eq_length_filter] at hmany
  have hjobs : store.prune.jobs = store.jobs.filter fun j =>
      !((store.byAge.take store.surplus).map JobRecord.id).contains j.id := by
    unfold prune
    dsimp only
    rw [if_neg hmany]
    rfl
  rw [hjobs]
  simp only [List.mem_filter, Bool.not_eq_true', List.contains_eq_mem, decide_eq_false_iff_not,
    List.mem_map, not_exists, not_and]
  apply and_congr_right
  intro hr
  constructor
  · intro hkept hold
    exact hkept r hold rfl
  · intro hkept old hold hid
    -- no other record has the id of a dropped one
    have hmem := (mem_byAge.mp (List.mem_of_mem_take hold)).1
    have hsame : old = r := List.inj_on_of_nodup_map hnd hmem hr hid
    exact hkept (hsame ▸ hold)

/-- Pruning keeps the finished records that finished last. -/
theorem prune_topK (hnd : store.ids.Nodup) :
    TopK store.retained JobRecord.finishedAt (finished store.prune.jobs)
      (finished store.jobs) := by
  by_cases hfew : (store.jobs.countP fun j => j.state.terminal) ≤ store.retained
  · rw [prune_eq_self hfew]
    exact TopK.refl (card_finished hnd ▸ hfew)
  · have hnodup := (List.Nodup.of_map JobRecord.id hnd).filter fun j => j.state.terminal
    have hsort : TopK store.retained JobRecord.finishedAt _ _ := TopK.sort hnodup store.retained
    have hsplit : (store.byAge.take store.surplus ++ store.byAge.drop store.surplus).Nodup := by
      rw [List.take_append_drop]
      exact (List.mergeSort_perm _ _).nodup_iff.mpr hnodup
    -- the records are distinct, so the front that goes and the rest that stays share none
    have hdisjoint := (List.nodup_append.mp hsplit).2.2
    have hkept : finished store.prune.jobs = (store.byAge.drop store.surplus).toFinset := by
      ext r
      have hage := @mem_byAge store r
      rw [← List.take_append_drop store.surplus store.byAge, List.mem_append] at hage
      rw [mem_finished, mem_prune_iff hnd hfew, List.mem_toFinset]
      constructor
      · intro h
        exact (hage.mpr ⟨h.1.1, h.2⟩).resolve_left h.1.2
      · intro hdrop
        obtain ⟨hr, hterminal⟩ := hage.mp (.inr hdrop)
        exact ⟨⟨hr, fun htake => hdisjoint r htake r hdrop rfl⟩, hterminal⟩
    rw [hkept]
    exact hsort

end JobStore

/-! ## Runs of the store -/

/-- A call on the store. -/
inductive StoreCall
  | create (id : Nat) (environment : Environment) (mode : TxMode) (now : Millis)
  | update (id : Nat) (patch : JobPatch)
  | fail (id : Nat) (reason : FailureReason) (error : JobError) (now : Millis)

/-- A store, with every record ever created as it was last written. -/
structure StoreRun where
  store : JobStore
  created : List JobRecord := []
deriving DecidableEq

namespace StoreRun

/-- The record of `id` is not finished, if there is one. -/
def Live (run : StoreRun) (id : Nat) : Prop :=
  ∀ r ∈ run.created, r.id = id → r.state.terminal = false

instance (run : StoreRun) (id : Nat) : Decidable (run.Live id) :=
  inferInstanceAs (Decidable (∀ r ∈ run.created, r.id = id → r.state.terminal = false))

/-- One call. `create` takes a fresh id, and a finished record is not written again. -/
def step (run : StoreRun) : StoreCall → Option StoreRun
  | .create id environment mode now =>
    if id ∈ run.created.map JobRecord.id then none
    else
      some
        { store := run.store.create id environment mode now
          created := run.created ++ [JobStore.newJob id environment mode now] }
  | .update id patch =>
    if run.Live id then
      some
        { store := run.store.update id patch
          created := run.created.map (JobRecord.patchAt id patch) }
    else none
  | .fail id reason error now =>
    if run.Live id then
      some
        { store := run.store.fail id reason error now
          created := run.created.map (JobRecord.patchAt id (JobStore.failPatch reason error now)) }
    else none

end StoreRun

/-- The store holds every live record of the history, and of the finished ones the newest. -/
structure Retains (store : JobStore) (created : List JobRecord) : Prop where
  ids : (created.map JobRecord.id).Nodup
  held : store.jobs.Sublist created
  live : ∀ r ∈ created, r.state.terminal = false → r ∈ store.jobs
  newest : TopK store.retained JobRecord.finishedAt (finished store.jobs) (finished created)

namespace Retains

variable {store store' : JobStore} {created created' : List JobRecord}

/-- The ids held are distinct. -/
theorem store_ids (h : Retains store created) : store.ids.Nodup :=
  (h.held.map JobRecord.id).nodup h.ids

/-- As many finished records are held as were made, up to the number retained. -/
theorem countP_eq (h : Retains store created) :
    (store.jobs.countP fun j => j.state.terminal) =
      min store.retained (created.countP fun j => j.state.terminal) := by
  rw [← card_finished h.store_ids, ← card_finished h.ids]
  exact h.newest.card

/-- Pruning what is held and new prunes the whole history. -/
theorem prune {new : Finset JobRecord} (h : Retains store created)
    (hretained : store'.retained = store.retained) (hids : (created'.map JobRecord.id).Nodup)
    (hheld : store'.jobs.Sublist created')
    (hlive : ∀ r ∈ created', r.state.terminal = false → r ∈ store'.jobs)
    (hfinished : finished store'.jobs = finished store.jobs ∪ new)
    (hcreated : finished created' = finished created ∪ new) : Retains store'.prune created' := by
  have hnd : store'.ids.Nodup := (hheld.map JobRecord.id).nodup hids
  have hevolves := JobStore.prune_evolves hnd
  constructor
  · exact hids
  · have hsub := hevolves.sublist
    rw [List.map_id] at hsub
    exact hsub.trans hheld
  · intro r hr hterminal
    exact hevolves.keeps r (hlive r hr hterminal) hterminal
  · -- the history is pruned along with what is held
    have htop := JobStore.prune_topK hnd
    rw [hfinished, hretained] at htop
    rw [JobStore.prune_retained, hretained, hcreated]
    exact h.newest.stream htop

/-- No more finished records are held than are retained. -/
theorem few (h : Retains store created) :
    (store.jobs.countP fun j => j.state.terminal) ≤ store.retained := by
  have hcount := h.countP_eq
  omega

/-- A created record is live. -/
theorem create {id : Nat} (h : Retains store created) (hfresh : id ∉ created.map JobRecord.id)
    (environment : Environment) (mode : TxMode) (now : Millis) :
    Retains (store.create id environment mode now)
      (created ++ [JobStore.newJob id environment mode now]) := by
  let job := JobStore.newJob id environment mode now
  -- the new job has not finished: it counts for nothing in the pruning
  have hquiet : ∀ l : List JobRecord, finished (l ++ [job]) = finished l ∪ ∅ := by
    intro l
    have hlive : job.state.terminal = false := rfl
    simp [finished, hlive]
  have hids : ((created ++ [job]).map JobRecord.id).Nodup := by
    rw [List.map_append, List.map_singleton, List.nodup_append]
    refine ⟨h.ids, List.nodup_singleton _, ?_⟩
    intro a ha b hb heq
    rw [List.mem_singleton.mp hb] at heq
    have hid : a = id := heq
    exact hfresh (hid ▸ ha)
  refine h.prune rfl hids
    (h.held.append (List.Sublist.refl _)) ?_ (hquiet _) (hquiet _)
  intro r hr hlive
  cases List.mem_append.mp hr with
  | inl hr => exact List.mem_append_left _ (h.live r hr hlive)
  | inr hr => exact List.mem_append_right _ hr

/-- An update patches the record and prunes, whether the code calls `prune` or, having
    finished no record, has no need to. -/
theorem update_eq_prune {id : Nat} (h : Retains store created) (patch : JobPatch) :
    store.update id patch =
      JobStore.prune { store with jobs := store.jobs.map (JobRecord.patchAt id patch) } := by
  unfold JobStore.update
  cases hjob : store.get? id with
  | none =>
    -- no such record any more: nothing is patched, and there is no surplus
    have hsame : store.jobs.map (JobRecord.patchAt id patch) = store.jobs := by
      refine (List.map_congr_left fun r hr => ?_).trans (List.map_id _)
      have hne : r.id ≠ id := by simpa using List.find?_eq_none.mp hjob r hr
      rw [JobRecord.patchAt, if_neg hne]
      rfl
    rw [hsame]
    exact (JobStore.prune_eq_self h.few).symm
  | some job =>
    dsimp only
    have hpatched : (store.jobs.modifyFirst (fun j => j.id == id) fun j => j.apply patch) =
        store.jobs.map (JobRecord.patchAt id patch) := List.modifyFirst_eq_map h.store_ids id _
    rw [hpatched]
    split
    · rfl
    · rename_i hstill
      obtain ⟨hmem, hid⟩ := JobStore.mem_of_get? hjob
      symm
      apply JobStore.prune_eq_self
      -- the one record that changed is as little finished as before
      refine Nat.le_trans ?_ h.few
      rw [List.countP_map]
      refine List.countP_mono_left fun r hr hterminal => ?_
      by_cases hrid : r.id = id
      · have hsame : r = job := List.inj_on_of_nodup_map h.store_ids hr hmem (hrid.trans hid.symm)
        subst hsame
        rw [Function.comp_apply, JobRecord.patchAt, if_pos hrid] at hterminal
        exact absurd hterminal hstill
      · rwa [Function.comp_apply, JobRecord.patchAt, if_neg hrid] at hterminal

/-- A record that finishes is new among the finished ones. -/
theorem finished_map {g : JobRecord → JobRecord} {jobs : List JobRecord}
    (hfixed : ∀ r ∈ jobs, r.state.terminal = true → g r = r) :
    finished (jobs.map g) =
      finished jobs ∪ finished ((jobs.filter fun j => !j.state.terminal).map g) := by
  ext r'
  simp only [mem_finished, Finset.mem_union, List.mem_map, List.mem_filter, Bool.not_eq_true']
  constructor
  · intro h
    obtain ⟨⟨r, hr, rfl⟩, hterminal⟩ := h
    -- finished before, it is untouched; otherwise it has just finished
    cases hbefore : r.state.terminal with
    | true =>
      rw [hfixed r hr hbefore]
      exact .inl ⟨hr, hbefore⟩
    | false => exact .inr ⟨⟨r, ⟨hr, hbefore⟩, rfl⟩, hterminal⟩
  · intro h
    cases h with
    | inl h => exact ⟨⟨r', h.1, hfixed r' h.1 h.2⟩, h.2⟩
    | inr h =>
      obtain ⟨⟨r, hr, rfl⟩, hterminal⟩ := h
      exact ⟨⟨r, hr.1, rfl⟩, hterminal⟩

/-- Patching a live record. -/
theorem update {id : Nat} (h : Retains store created)
    (hlive : ∀ r ∈ created, r.id = id → r.state.terminal = false) (patch : JobPatch) :
    Retains (store.update id patch) (created.map (JobRecord.patchAt id patch)) := by
  have hfixed : ∀ r ∈ created, r.state.terminal = true → r.patchAt id patch = r := by
    intro r hr hterminal
    have hne : r.id ≠ id := by
      intro hid
      rw [hlive r hr hid] at hterminal
      cases hterminal
    rw [JobRecord.patchAt, if_neg hne]
  -- the live records are the same in the store and in the history
  have hsame : finished ((store.jobs.filter fun j => !j.state.terminal).map
        (JobRecord.patchAt id patch)) =
      finished ((created.filter fun j => !j.state.terminal).map (JobRecord.patchAt id patch)) := by
    ext r'
    simp only [mem_finished, List.mem_map, List.mem_filter, Bool.not_eq_true']
    apply and_congr_left
    intro _
    constructor
    · intro hr
      obtain ⟨r, ⟨hr, hbefore⟩, heq⟩ := hr
      exact ⟨r, ⟨h.held.subset hr, hbefore⟩, heq⟩
    · intro hr
      obtain ⟨r, ⟨hr, hbefore⟩, heq⟩ := hr
      exact ⟨r, ⟨h.live r hr hbefore, hbefore⟩, heq⟩
  rw [h.update_eq_prune patch]
  refine h.prune rfl ?_ (h.held.map _) ?_ ?_ (finished_map hfixed)
  · have hids : (created.map (JobRecord.patchAt id patch)).map JobRecord.id =
        created.map JobRecord.id := by simp [Function.comp_def]
    rw [hids]
    exact h.ids
  · intro r' hr' hterminal
    obtain ⟨r, hr, rfl⟩ := List.mem_map.mp hr'
    refine List.mem_map_of_mem (h.live r hr ?_)
    -- a finished record is not written, so it would still be finished
    by_contra hfin
    rw [Bool.not_eq_false] at hfin
    rw [hfixed r hr hfin, hfin] at hterminal
    cases hterminal
  · rw [← hsame]
    exact finished_map fun r hr => hfixed r (h.held.subset hr)

end Retains

namespace StoreRun

variable {run run' : StoreRun} {c : StoreCall}

/-- A store without records. -/
def new (maxJobs retained maxActiveJobs : Nat) : StoreRun :=
  { store := { maxJobs, retained, maxActiveJobs } }

/-- A new store holds nothing, and nothing has been made. -/
theorem retains_new (maxJobs retained maxActiveJobs : Nat) :
    Retains (new maxJobs retained maxActiveJobs).store [] where
  ids := List.nodup_nil
  held := List.Sublist.refl []
  live r hr := by cases hr
  newest := TopK.refl (Nat.zero_le _)

/-- A call of the store keeps the right records. -/
theorem retains_step (h : Retains run.store run.created) (hs : run.step c = some run') :
    Retains run'.store run'.created := by
  cases c with
  | create id environment mode now =>
    simp only [step, Option.ite_none_left_eq_some, Option.some.injEq] at hs
    obtain ⟨hfresh, rfl⟩ := hs
    exact h.create hfresh environment mode now
  | update id patch =>
    simp only [step, Option.ite_none_right_eq_some, Option.some.injEq] at hs
    obtain ⟨hlive, rfl⟩ := hs
    exact h.update hlive patch
  | fail id reason error now =>
    simp only [step, Option.ite_none_right_eq_some, Option.some.injEq] at hs
    obtain ⟨hlive, rfl⟩ := hs
    exact h.update hlive (JobStore.failPatch reason error now)

/-- And the number retained. -/
theorem step_retained (hs : run.step c = some run') :
    run'.store.retained = run.store.retained := by
  cases c with
  | create id environment mode now =>
    simp only [step, Option.ite_none_left_eq_some, Option.some.injEq] at hs
    obtain ⟨-, rfl⟩ := hs
    exact JobStore.prune_retained
  | update id patch =>
    simp only [step, Option.ite_none_right_eq_some, Option.some.injEq] at hs
    obtain ⟨-, rfl⟩ := hs
    exact JobStore.update_retained id patch
  | fail id reason error now =>
    simp only [step, Option.ite_none_right_eq_some, Option.some.injEq] at hs
    obtain ⟨-, rfl⟩ := hs
    exact JobStore.update_retained id _

/-- After every run the store holds the right records. -/
theorem retains_reachable {maxJobs retained maxActiveJobs : Nat}
    (hr : Reachable step (new maxJobs retained maxActiveJobs) run) :
    Retains run.store run.created ∧ run.store.retained = retained := by
  apply hr.invariant (I := fun run => Retains run.store run.created ∧ run.store.retained = retained)
  · exact ⟨retains_new maxJobs retained maxActiveJobs, rfl⟩
  · intro run c run' h _ hs
    exact ⟨retains_step h.1 hs, (step_retained hs).trans h.2⟩

end StoreRun

/-- After every call of a run that writes no finished record again, the store holds every
    live job ever created and `retained` of those that finished so far (or all of them),
    and none it has dropped finished after one it holds. -/
theorem retention_exact {maxJobs retained maxActiveJobs : Nat} {run : StoreRun}
    (hr : Reachable StoreRun.step (.new maxJobs retained maxActiveJobs) run) :
    run.store.jobs.Sublist run.created ∧
    (∀ r ∈ run.created, r.state.terminal = false → r ∈ run.store.jobs) ∧
    (run.store.jobs.countP fun j => j.state.terminal) =
      min retained (run.created.countP fun j => j.state.terminal) ∧
    ∀ dropped ∈ run.created, dropped ∉ run.store.jobs →
      ∀ held ∈ run.store.jobs, held.state.terminal = true →
        dropped.state.terminal = true ∧ dropped.finishedAt ≤ held.finishedAt := by
  obtain ⟨hinv, hretained⟩ := StoreRun.retains_reachable hr
  refine ⟨hinv.held, hinv.live, hretained ▸ hinv.countP_eq, ?_⟩
  intro dropped hdropped hout held hheld hterminal
  -- only a finished record is dropped
  have hfin : dropped.state.terminal = true := by
    by_contra hlive
    rw [Bool.not_eq_true] at hlive
    exact hout (hinv.live dropped hdropped hlive)
  have hnewest := hinv.newest.newest dropped (by simp [hdropped, hfin]) (by simp [hout])
  exact ⟨hfin, hnewest held (by simp [hheld, hterminal])⟩

/-- Two jobs finish in a store that retains one, the clock going back between them. -/
def backwardsRun : List StoreCall :=
  [.create 0 .dev .ethSelfTransfer 0, .create 1 .dev .ethSelfTransfer 0,
   .fail 0 .signatureTimeout .shutdown 9, .fail 1 .signatureTimeout .shutdown 4]

/-- One of the two is dropped, and not the one the store holds finished earlier. -/
theorem retention_exact_backwards :
    let run := (exec StoreRun.step (.new 5 1 5) backwardsRun).getD (.new 5 1 5)
    (run.created.countP fun j => j.state.terminal) = 2 ∧
      (run.store.jobs.countP fun j => j.state.terminal) = 1 ∧
      ∀ dropped ∈ run.created, dropped ∉ run.store.jobs →
        ∀ held ∈ run.store.jobs, held.state.terminal = true →
          dropped.state.terminal = true ∧ dropped.finishedAt ≤ held.finishedAt := by
  intro run
  have hexec : exec StoreRun.step (.new 5 1 5) backwardsRun = some run :=
    exec_getD (by decide +kernel) _
  have hexact := retention_exact (reachable_of_exec hexec)
  have hfinished : (run.created.countP fun j => j.state.terminal) = 2 := by decide +kernel
  refine ⟨hfinished, ?_, hexact.2.2.2⟩
  rw [hexact.2.2.1, hfinished]
  rfl

end ContractPinger
