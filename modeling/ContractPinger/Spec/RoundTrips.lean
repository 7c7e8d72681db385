import ContractPinger.ForStd.Transcript
import ContractPinger.Spec.Addresses
import ContractPinger.Spec.TripSteps

/-!
# Round trips

A job may break off its round trip at any point; it never skips, repeats or reorders a line of
its script. What it starts on the chains is in the script, once, and what its record reports
is what was said.

## Key results

- `said_step`: what a job has said stays accounted for through every step of the service
- `round_trip`: in every run, what a job has said is the beginning of the script of a genuine
  round trip, and its record reports just that
-/

namespace ContractPinger

open Machine

/-- The exchanges of the job in a step. -/
def World.exchanges (s : Setup) (job : Nat) (w : World) (a : Action) : List Exchange :=
  match a.replyTo job, w.frames[job]? with
  | some reply, some f =>
    (f.resume s w.view job reply).elim [] fun next => f.exchanges reply next.2
  | _, _ => []

/-- The exchanges of the job in a run, in order. -/
def World.dialogue (s : Setup) (start : Millis) (as : List Action) (job : Nat) : List Exchange :=
  transcript (step s) (exchanges s job) (World.new s start) as

/-- The operations among exchanges. -/
def Exchange.operation? : Exchange → Option Operation
  | .began op => some op
  | .told _ => none

/-- The operations in what is said are those that were begun. -/
theorem Frame.exchanges_operations {s : Setup} {view : RunView} {job : Nat} {f : Frame}
    {reply : Reply} {next : Frame × List Effect} (h : f.resume s view job reply = some next) :
    (f.exchanges reply next.2).filterMap Exchange.operation? = operations next.2 := by
  -- what the job is told is no operation of its own
  have htold : reply.told.filterMap Exchange.operation? = [] := by cases reply <;> rfl
  have hbegan : ∀ ops : List Operation,
      (ops.map Exchange.began).filterMap Exchange.operation? = ops := by
    intro ops
    rw [List.filterMap_map]
    exact List.filterMap_some
  unfold exchanges
  split
  · rw [List.filterMap_append, htold, List.nil_append, hbegan]
  · rename_i hnone
    -- without an address it begins nothing
    rw [operations_home (Option.not_isSome_iff_eq_none.mp hnone) h]
    rfl

namespace World

variable {s : Setup} {w w' : World} {a : Action}

/-- Where a job has an address, it is the one derived for its path. -/
theorem address_granted {start : Millis} (h : Reachable (step s) (World.new s start) w)
    {job : Nat} {path : String} (hgranted : (job, .resolved path) ∈ w.pool.settled) :
    ∃ solana, s.solana = .ok solana ∧
      w.pool.address path = (deriveWorker s.libs solana path).address := by
  obtain ⟨hpath, hfulfilled⟩ := grantInv_reachable h job path hgranted
  exact ((addressInv_reachable h).fulfilled hfulfilled).address hpath

/-- The address of a job on a round trip is the one derived for its path. -/
theorem address_of_trip {start : Millis} (h : Reachable (step s) (World.new s start) w)
    {job : Nat} {f : Frame} (hf : w.frames[job]? = some f) {said : List Exchange}
    {held : JobRecord → Prop} {who : Lessee} {rt : RoundTrip} {n : Nat}
    (htrip : f.OnTrip s said held who rt n) :
    w.pool.address who.path = who.address s.libs := by
  have hpc : f.pc ≠ .leasing := by
    intro hpc
    have hrecalls := htrip.recalls
    rw [hpc] at hrecalls
    cases hrecalls
  have hgranted := (taken_reachable h job f hf hpc who.path).mp htrip.worker
  obtain ⟨solana, hsolana, haddress⟩ := address_granted h hgranted
  obtain rfl : who.solana = solana := Except.ok.inj (htrip.solana.symm.trans hsolana)
  exact haddress

/-- The exchanges of a step that resumes the job. -/
theorem exchanges_resume {job : Nat} {reply : Reply} {f : Frame} {next : Frame × List Effect}
    (hf : w.frames[job]? = some f) (h : f.resume s w.view job reply = some next) :
    exchanges s job w (.resume job reply) = f.exchanges reply next.2 := by
  simp only [exchanges, Action.replyTo, if_pos, hf, h]
  rfl

/-- A step that does not resume the job has none. -/
theorem exchanges_of_other {job : Nat} (h : a.resumed ≠ some (.job job)) :
    exchanges s job w a = [] := by
  rw [exchanges, Action.replyTo_eq_none h]

/-- A step that does not resume the job leaves its record alone. -/
theorem record_of_other (hjobs : w.JobsInv) (hstep : step s w a = some w') {job : Nat}
    (hother : a.resumed ≠ some (.job job)) {r : JobRecord} (hr : r ∈ w'.jobs.jobs)
    (hid : r.id = job) : r ∈ w.jobs.jobs ∨
      ∃ mode, a = .start mode ∧ r = JobStore.newJob w.frames.length s.environment mode w.now := by
  cases step_jobs hstep with
  | accepted mode f hstart _ _ hcreate _ _ _ =>
    rw [hcreate] at hr
    -- what pruning left is an old record or the new one
    obtain ⟨r₀, hr₀, rfl⟩ := (hjobs.create_evolves s.environment mode w.now).mem hr
    rcases List.mem_append.mp hr₀ with hold | hnew
    · exact .inl hold
    · exact .inr ⟨mode, hstart, List.mem_singleton.mp hnew⟩
  | moved other reply f f' ps hresume hf hmove _ hupdate _ _ _ =>
    rw [hupdate] at hr
    obtain ⟨r₀, hr₀, rfl⟩ := (hjobs.move_evolves hf hmove).mem hr
    rw [JobRecord.patchAllAt_id] at hid
    -- the patches are to the record of the job that went on, which is another
    have hne : r₀.id ≠ other := by
      rintro rfl
      rw [hresume, hid] at hother
      exact hother rfl
    rw [JobRecord.patchAllAt, if_neg hne]
    exact .inl hr₀
  | quiet _ _ hsame _ _ =>
    rw [hsame] at hr
    exact .inl hr

/-- A step that resumes the job makes one move, with the patches its record gets. -/
theorem record_of_resume (hjobs : w.JobsInv) {job : Nat} {reply : Reply}
    (hstep : step s w (.resume job reply) = some w') :
    ∃ (f : Frame) (next : Frame × List Effect), w.frames[job]? = some f ∧
      f.resume s w.view job reply = some next ∧ w'.frames = w.frames.set job next.1 ∧
      Stage.Move w.now f.pc.stage next.1.pc.stage (patchesOf w.now next.2) ∧
      ∀ r', r' ∈ w'.jobs.jobs ∧ r'.id = job → ∃ r, (r ∈ w.jobs.jobs ∧ r.id = job) ∧
        r' = (patchesOf w.now next.2).foldl JobRecord.apply r := by
  obtain ⟨f, f', effects, hf, hresume, rfl⟩ := step_resume hstep
  obtain ⟨ps, hmove, hps⟩ := Frame.resume_stage hresume
  have hpatches : patchesOf w.now effects = ps := by
    rw [patchesOf, show patches w.now effects = _ from hps, List.map_map]
    exact List.map_id ps
  let moved : World := { w with frames := w.frames.set job f' }
  -- the effects write this job's record only, patch after patch
  have hupdate : (moved.performAll (.job job) effects).jobs = w.jobs.updateAll job ps :=
    performAll_updateAll hps
  refine ⟨f, (f', effects), hf, hresume, performAll_frames _ _ _, ?_, ?_⟩
  · rw [hpatches]
    exact hmove
  · rintro r' ⟨hr', hid⟩
    rw [hupdate] at hr'
    obtain ⟨r, hr, rfl⟩ := (hjobs.move_evolves hf hmove).mem hr'
    rw [JobRecord.patchAllAt_id] at hid
    exact ⟨r, ⟨hr, hid⟩, by rw [JobRecord.patchAllAt, if_pos hid, hpatches]⟩

/-- The frame `start` adds is in the mode asked for. -/
theorem start_mode {mode : TxMode} {f : Frame}
    (hf : (w.start s mode).frames[w.frames.length]? = some f) : f.mode = mode := by
  unfold start at hf
  dsimp only at hf
  split at hf
  · rw [List.getElem?_concat_length] at hf
    rw [← Option.some.inj hf]
  · dsimp only at hf
    rw [ensureAddresses_frames, List.getElem?_concat_length] at hf
    rw [← Option.some.inj hf]

/-- What a job has said so far is accounted for, and what it has started is what it has said. -/
structure Said (s : Setup) (job : Nat) (said : List Exchange) (w : World) : Prop where
  started : operations (w.callsOf job) = said.filterMap Exchange.operation?
  unaccepted : w.frames[job]? = none → said = []
  travels : ∀ f : Frame, w.frames[job]? = some f →
    f.Travels s said fun r => r ∈ w.jobs.jobs ∧ r.id = job

/-- A step that does not resume the job, nor accepts it, keeps its account. -/
theorem Said.stays {job : Nat} {said : List Exchange} (hjobs : w.JobsInv)
    (hstep : step s w a = some w') (h : Said s job said w)
    (hother : a.resumed ≠ some (.job job)) (hcalls : w'.callsOf job = w.callsOf job)
    {f g : Frame} (hbefore : w.frames[job]? = some f) (hafter : w'.frames[job]? = some g)
    (hmode : g.mode = f.mode) (hworker : g.worker = f.worker)
    (hrequester : g.requester = f.requester) (hpc : g.pc = f.pc) : Said s job said w' := by
  refine ⟨by rw [hcalls, h.started], ?_, fun f' hf' => ?_⟩
  · intro hnone
    cases hnone.symm.trans hafter
  · obtain rfl : g = f' := Option.some.inj (hafter.symm.trans hf')
    refine ((h.travels f hbefore).mono ?_).congr hmode hworker hrequester hpc
    rintro r ⟨hr, hid⟩
    rcases record_of_other hjobs hstep hother hr hid with hold | ⟨mode, _, rfl⟩
    · exact ⟨hold, hid⟩
    · -- the new record is not of a job that was there before
      have hlt := (List.getElem?_eq_some_iff.mp hbefore).1
      have hid : w.frames.length = job := hid
      omega

/-- A step says what it says, after what was said before. -/
theorem said_step {start : Millis} {job : Nat} {said : List Exchange}
    (hreach : Reachable (step s) (World.new s start) w) (h : Said s job said w)
    (hstep : step s w a = some w') : Said s job (said ++ exchanges s job w a) w' := by
  have hjobs := jobsInv_reachable hreach
  cases step_job hstep job with
  | absent hbefore hafter hother hcalls =>
    rw [exchanges_of_other hother, List.append_nil]
    refine ⟨by rw [hcalls, h.started], fun _ => h.unaccepted hbefore, fun f hf => ?_⟩
    cases hf.symm.trans hafter
  | accepted f mode hstart hid hafter hfresh hcalls =>
    subst hid
    have hother : a.resumed ≠ some (.job w.frames.length) := by simp [hstart, Action.resumed]
    have hnone : w.frames[w.frames.length]? = none := List.getElem?_eq_none (Nat.le_refl _)
    rw [exchanges_of_other hother, List.append_nil]
    refine ⟨by rw [hcalls, h.started], fun _ => h.unaccepted hnone, fun g hg => ?_⟩
    obtain rfl : f = g := Option.some.inj (hafter.symm.trans hg)
    -- nothing was said before, so its transaction is still at home
    rw [h.unaccepted hnone]
    refine hfresh.travels fun r hr => ?_
    rcases record_of_other hjobs hstep hother hr.1 hr.2 with hold | ⟨mode', hstart', rfl⟩
    · exact absurd (hjobs.id_lt hold) (by rw [hr.2]; exact Nat.lt_irrefl _)
    · subst hstart'
      cases hstep
      exact ⟨(start_mode hafter).symm, rfl, by simp [JobStore.newJob]⟩
  | resumed reply f f' effects hresumed hf hafter hresume _ hcalls =>
    subst hresumed
    rw [exchanges_resume hf hresume]
    refine ⟨?_, fun hnone => absurd (hnone.symm.trans hafter) (by simp), fun g hg => ?_⟩
    · rw [hcalls, operations_append, List.filterMap_append, h.started,
        Frame.exchanges_operations hresume]
    obtain rfl : f' = g := Option.some.inj (hafter.symm.trans hg)
    obtain ⟨f₁, next, hf₁, hresume₁, _, _, hheld⟩ := record_of_resume hjobs hstep
    obtain rfl : f = f₁ := Option.some.inj (hf.symm.trans hf₁)
    cases hresume.symm.trans hresume₁
    -- at home it may set out with the address it is granted; on its trip it goes on
    rcases h.travels f hf with hhome | ⟨who, rt, n, htrip⟩
    · -- the lease it hears of is the one that the ledger holds for it
      have hnodup := (leaseInv_reachable hreach).ledger.calls_nodup.of_append_right
      refine hhome.resume (fun path hset => ?_) hresume hheld
      exact address_granted hreach ((List.lookup_eq_some_iff_mem hnodup).mp hset)
    · obtain ⟨rt', n', htrip'⟩ := htrip.resume (address_of_trip hreach hf htrip) hresume hheld
      exact .inr ⟨who, rt', n', htrip'⟩
  | stays f hbefore hafter hother _ hcalls =>
    rw [exchanges_of_other hother, List.append_nil]
    exact h.stays hjobs hstep hother hcalls hbefore hafter rfl rfl rfl rfl
  | deadline f hdeadline hbefore _ hafter hcalls =>
    have hother : a.resumed ≠ some (.job job) := by simp [hdeadline, Action.resumed]
    rw [exchanges_of_other hother, List.append_nil]
    exact h.stays hjobs hstep hother hcalls hbefore hafter rfl rfl rfl rfl
  | aborted f habort hbefore _ hafter hcalls =>
    have hother : a.resumed ≠ some (.job job) := by simp [habort, Action.resumed]
    rw [exchanges_of_other hother, List.append_nil]
    exact h.stays hjobs hstep hother hcalls hbefore hafter rfl rfl rfl rfl

/-- What a run has said of a job is a genuine beginning of a round trip. -/
theorem said_dialogue {start : Millis} {as : List Action}
    (h : exec (step s) (World.new s start) as = some w) (job : Nat) :
    Said s job (dialogue s start as job) w :=
  exec_transcript (I := Said s job) ⟨rfl, fun _ => rfl, fun _ hf => by cases hf⟩
    (fun _ _ _ _ hreach hsaid hstep => said_step hreach hsaid hstep) h

/-- In every run a job that has an address is on one round trip of its own: what it is told and
    what it starts are the first lines of its script, said with reason; what it has started
    on the chains is no more than that; and its record, while it is held, reports just that. -/
theorem round_trip {start : Millis} {as : List Action}
    (h : exec (step s) (World.new s start) as = some w) {job : Nat} {f : Frame}
    (hf : w.frames[job]? = some f) :
    operations (w.callsOf job) = (dialogue s start as job).filterMap Exchange.operation? ∧
      (∃ serialized, operations (w.callsOf job) <+:
        [.buildTransaction, .sendAndConfirm, .sendRawTransaction serialized]) ∧
      f.Travels s (dialogue s start as job) fun r => w.jobs.get? job = some r := by
  have hsaid := said_dialogue h job
  have htravels := hsaid.travels f hf
  refine ⟨hsaid.started, ?_, htravels.mono fun r hr => JobStore.mem_of_get? hr⟩
  rw [hsaid.started]
  rcases htravels with hhome | ⟨who, rt, n, htrip⟩
  · rw [hhome.said]
    exact ⟨"", List.nil_prefix⟩
  · rw [htrip.said]
    refine ⟨rt.serialized, ?_⟩
    -- of the script's exchanges three are operations, whether or not it is sent
    have hscript : rt.script.filterMap Exchange.operation? =
        [.buildTransaction, .sendAndConfirm, .sendRawTransaction rt.serialized] := by
      unfold RoundTrip.script
      split <;> rfl
    rw [← hscript]
    exact (List.take_prefix n rt.script).filterMap _

/-- The job that was responded to has said all twelve lines of it. -/
theorem respondedRun_trip : (dialogue sampleSetup 0 respondedRun 0).length = 12 ∧
    ∃ f : Frame, respondedWorld.frames[0]? = some f ∧
      f.Travels sampleSetup (dialogue sampleSetup 0 respondedRun 0)
        fun r => respondedWorld.jobs.get? 0 = some r := by
  refine ⟨by decide +kernel, _, rfl, ?_⟩
  exact (round_trip exec_respondedRun rfl).2.2

end World

end ContractPinger
