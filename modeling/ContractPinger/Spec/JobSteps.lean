import ContractPinger.Spec.PoolSteps

/-!
# What a step does to one job

One inversion lemma, seen from a single job: a step resumes it, accepts it, aborts its
controller, or leaves it and the calls it has made alone. `callsOf` and `repliesTo` are the
job's own view of a run: the calls it has made and the answers its `await`s got, in order.

## Key results

- `step_job`: the inversion lemma
- `callsOf_performAll`: a stretch of code adds its calls to those of its own job only
-/

namespace ContractPinger

open Machine

/-- The answer an action gives to an `await` of the job. -/
def Action.replyTo (job : Nat) : Action → Option Reply
  | .resume other reply => if other = job then some reply else none
  | _ => none

/-- The answers the `await`s of the job got, in order. -/
def repliesTo (job : Nat) (as : List Action) : List Reply := as.filterMap (Action.replyTo job)

/-- A job is answered by the actions that resume it. -/
theorem repliesTo_concat (job : Nat) (as : List Action) (a : Action) :
    repliesTo job (as ++ [a]) = repliesTo job as ++ (a.replyTo job).toList := by
  rw [repliesTo, List.filterMap_append]
  cases hreply : a.replyTo job <;> simp [repliesTo, hreply]

/-- An action that does not resume the job answers it nothing. -/
theorem Action.replyTo_eq_none {job : Nat} {a : Action} (h : a.resumed ≠ some (.job job)) :
    a.replyTo job = none := by
  cases a with
  | resume other reply =>
    refine if_neg ?_
    rintro rfl
    exact h rfl
  | _ => rfl

/-- So its answers stay the same. -/
theorem repliesTo_concat_of_ne {job : Nat} {a : Action} (h : a.resumed ≠ some (.job job))
    (as : List Action) : repliesTo job (as ++ [a]) = repliesTo job as := by
  rw [repliesTo_concat, Action.replyTo_eq_none h]
  exact List.append_nil _

@[simp] theorem repliesTo_concat_resume (job : Nat) (reply : Reply) (as : List Action) :
    repliesTo job (as ++ [.resume job reply]) = repliesTo job as ++ [reply] := by
  rw [repliesTo_concat, Action.replyTo, if_pos rfl]
  rfl

/-- The call, if it is one of the job's. -/
def callOf (job : Nat) (call : Proc × Effect) : Option Effect :=
  if call.1 = .job job then some call.2 else none

namespace World

/-- The calls the job has made on the shared objects, in order. -/
def callsOf (w : World) (job : Nat) : List Effect := w.calls.filterMap (callOf job)

/-- A step that calls nothing leaves every job's calls. -/
theorem callsOf_congr {w w' : World} (h : w'.calls = w.calls) (job : Nat) :
    w'.callsOf job = w.callsOf job := by
  rw [callsOf, callsOf, h]

/-- A stretch of a job's code adds its calls to those of the job. -/
theorem callsOf_performAll (w : World) (job : Nat) (effects : List Effect) :
    (w.performAll (.job job) effects).callsOf job = w.callsOf job ++ effects := by
  rw [callsOf, performAll_calls, List.filterMap_append, List.filterMap_map]
  congr 1
  -- every one of these calls is the job's own
  have hown : callOf job ∘ (fun effect => (Proc.job job, effect)) = some := by
    funext effect
    exact if_pos rfl
  rw [hown]
  exact List.filterMap_some

/-- And to those of no other job. -/
theorem callsOf_performAll_of_ne (w : World) {who : Proc} {job : Nat} (h : who ≠ .job job)
    (effects : List Effect) : (w.performAll who effects).callsOf job = w.callsOf job := by
  have hnone : (effects.map fun effect => (who, effect)).filterMap (callOf job) = [] := by
    rw [List.filterMap_map, List.filterMap_eq_nil_iff]
    intro effect _
    exact if_neg h
  rw [callsOf, performAll_calls, List.filterMap_append, hnone, List.append_nil]
  rfl

end World

/-- The frame of a job that has just been accepted. -/
inductive Frame.Fresh (s : Setup) (f : Frame) : Prop
  | running (solana : SolanaContext) (derivation : Nat) (context : s.solana = .ok solana)
      (eq : f = { mode := f.mode, requester := solana.requester, listed := true,
                  pc := .ensuringAddresses derivation })
  | rejected (error : JsError) (context : s.solana = .error error)
      (eq : f = { mode := f.mode, pc := .rejected (.other error) })

namespace Frame

/-- A job just accepted has no worker. -/
theorem Fresh.worker {s : Setup} {f : Frame} (h : f.Fresh s) : f.worker = none := by
  cases h with
  | running _ _ _ heq => rw [heq]
  | rejected _ _ heq => rw [heq]

/-- And it has not been aborted. -/
theorem Fresh.aborted {s : Setup} {f : Frame} (h : f.Fresh s) : f.aborted = none := by
  cases h with
  | running _ _ _ heq => rw [heq]
  | rejected _ _ heq => rw [heq]

end Frame

namespace World

/-- What a step makes of one job, and the calls the job makes in it. -/
inductive JobStep (s : Setup) (w w' : World) (a : Action) (job : Nat) : Prop
  /-- There is no such job, before or after. -/
  | absent (before : w.frames[job]? = none) (after : w'.frames[job]? = none)
      (other : a.resumed ≠ some (.job job)) (calls : w'.callsOf job = w.callsOf job)
  | accepted (f : Frame) (mode : TxMode) (isStart : a = .start mode)
      (id : job = w.frames.length) (after : w'.frames[job]? = some f) (fresh : f.Fresh s)
      (calls : w'.callsOf job = w.callsOf job)
  | resumed (reply : Reply) (f f' : Frame) (effects : List Effect)
      (isResume : a = .resume job reply) (before : w.frames[job]? = some f)
      (after : w'.frames[job]? = some f')
      (resume : f.resume s w.view job reply = some (f', effects))
      (pool : w'.pool = effects.foldl (fun pool effect => effect.onPool w.now pool) w.pool)
      (calls : w'.callsOf job = w.callsOf job ++ effects)
  | stays (f : Frame) (before : w.frames[job]? = some f) (after : w'.frames[job]? = some f)
      (other : a.resumed ≠ some (.job job))
      (unaborted : a = .abortActiveJobs → f.listed = false)
      (calls : w'.callsOf job = w.callsOf job)
  | deadline (f : Frame) (isDeadline : a = .respondDeadline job)
      (before : w.frames[job]? = some f) (set : f.respondDeadline = true)
      (after : w'.frames[job]? =
        some { f.abort (respondDeadlineError s) with respondDeadline := false })
      (calls : w'.callsOf job = w.callsOf job)
  | aborted (f : Frame) (isAbort : a = .abortActiveJobs) (before : w.frames[job]? = some f)
      (listed : f.listed = true)
      (after : w'.frames[job]? = some { f.abort abortError with listed := false })
      (calls : w'.callsOf job = w.callsOf job)

/-- A job whose frame and calls a step leaves alone. -/
private theorem jobStep_same {s : Setup} {w w' : World} {a : Action} {job : Nat}
    (hframe : w'.frames[job]? = w.frames[job]?) (hother : a.resumed ≠ some (.job job))
    (habort : a ≠ .abortActiveJobs) (hcalls : w'.callsOf job = w.callsOf job) :
    JobStep s w w' a job := by
  cases hf : w.frames[job]? with
  | none => exact .absent hf (hframe.trans hf) hother hcalls
  | some f => exact .stays f hf (hframe.trans hf) hother (fun h => absurd h habort) hcalls

/-- The frame `start` adds. -/
theorem start_fresh (w : World) (s : Setup) (mode : TxMode) :
    ∃ f : Frame, (w.start s mode).frames = w.frames ++ [f] ∧ f.Fresh s := by
  unfold start
  dsimp only
  split
  · rename_i e hcontext
    exact ⟨_, rfl, .rejected e hcontext rfl⟩
  · rename_i solana hcontext
    dsimp only
    rw [ensureAddresses_frames]
    exact ⟨_, rfl, .running solana _ hcontext rfl⟩

/-- What any step does to one job. -/
theorem step_job {s : Setup} {w w' : World} {a : Action} (hstep : step s w a = some w')
    (job : Nat) : JobStep s w w' a job := by
  cases a with
  | start mode =>
    cases hstep
    obtain ⟨f, hframes, hfresh⟩ := start_fresh w s mode
    have hcalls := callsOf_congr (start_calls w s mode) job
    -- jobs are numbered as they are accepted
    rcases Nat.lt_trichotomy job w.frames.length with hlt | rfl | hgt
    · exact jobStep_same (by rw [hframes, List.getElem?_append_left hlt]) (by simp [Action.resumed])
        (by simp) hcalls
    · exact .accepted f mode rfl rfl (by rw [hframes, List.getElem?_concat_length]) hfresh hcalls
    · refine .absent (List.getElem?_eq_none (Nat.le_of_lt hgt)) ?_ (by simp [Action.resumed]) hcalls
      rw [hframes]
      apply List.getElem?_eq_none
      rw [List.length_append, List.length_singleton]
      omega
  | getWorkers =>
    cases hstep
    have hframes : (w.getWorkers s).frames = w.frames := ensureAddresses_frames w s
    have hcalls : (w.getWorkers s).calls = w.calls :=
      congrArg (List.filterMap Event.call?) (ensureAddresses_history w s)
    exact jobStep_same (by rw [hframes]) (by simp [Action.resumed]) (by simp)
      (callsOf_congr hcalls job)
  | resume other reply =>
    obtain ⟨f, f', effects, hf, hresume, rfl⟩ := step_resume hstep
    -- the frame is put in place, and then the calls are made
    let moved : World := { w with frames := w.frames.set other f' }
    by_cases hother : other = job
    · subst hother
      have hlt : other < w.frames.length := (List.getElem?_eq_some_iff.mp hf).1
      refine .resumed reply f f' effects rfl hf ?_ hresume (performAll_pool _ _ _)
        (callsOf_performAll moved other effects)
      rw [performAll_frames]
      exact List.getElem?_set_self hlt
    · refine jobStep_same ?_ (by simp [Action.resumed, hother]) (by simp)
        (callsOf_performAll_of_ne moved (by simp [hother]) effects)
      rw [performAll_frames]
      exact List.getElem?_set_ne hother
  | resumeRequest request reply =>
    obtain ⟨pc, pc', effects, _, _, rfl⟩ := step_resumeRequest hstep
    let asked : World := { w with requests := w.requests.set request pc' }
    exact jobStep_same (by rw [performAll_frames]) (by simp [Action.resumed]) (by simp)
      (callsOf_performAll_of_ne asked (by simp) effects)
  | resumeDerivation index reply =>
    obtain ⟨_, _, _, rfl, _⟩ := step_resumeDerivation hstep
    exact jobStep_same rfl (by simp [Action.resumed]) (by simp) rfl
  | expire call =>
    obtain ⟨_, rfl⟩ := step_expire hstep
    exact jobStep_same rfl (by simp [Action.resumed]) (by simp)
      (callsOf_congr (setPool_calls _ _) job)
  | respondDeadline other =>
    obtain ⟨f, hf, hset, rfl⟩ := step_respondDeadline hstep
    by_cases hother : other = job
    · subst hother
      have hlt : other < w.frames.length := (List.getElem?_eq_some_iff.mp hf).1
      exact .deadline f rfl hf hset (List.getElem?_set_self hlt) rfl
    · exact jobStep_same (List.getElem?_set_ne hother) (by simp [Action.resumed]) (by simp) rfl
  | abortActiveJobs =>
    cases hstep
    have hcalls := callsOf_congr (abortActiveJobs_calls w) job
    have hframe : w.abortActiveJobs.frames[job]? = w.frames[job]?.map fun f =>
        if f.listed then { f.abort abortError with listed := false } else f :=
      List.getElem?_map
    cases hf : w.frames[job]? with
    | none => exact .absent hf (by rw [hframe, hf]; rfl) (by simp [Action.resumed]) hcalls
    | some f =>
      rw [hf, Option.map_some] at hframe
      -- only controllers on the list are aborted
      cases hlisted : f.listed with
      | true =>
        rw [if_pos hlisted] at hframe
        exact .aborted f rfl hf hlisted hframe hcalls
      | false =>
        rw [hlisted, if_neg (by simp)] at hframe
        exact .stays f hf hframe (by simp [Action.resumed]) (fun _ => hlisted) hcalls
  | clock now =>
    cases hstep
    exact jobStep_same rfl (by simp [Action.resumed]) (by simp) rfl

end World

end ContractPinger
