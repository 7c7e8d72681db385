import ContractPinger.ForStd.WriteOnce
import ContractPinger.Spec.HeldRecords
import ContractPinger.Spec.RoundTrips
import ContractPinger.Spec.StatsAgreement

/-!
# What a record tells stays true

`JobStore.update` would overwrite any field of a record. No field is ever overwritten, though:
`run()` writes each once, at its own stage, and the state only moves forward. So a client that
reads a record twice finds in the second reading all that it found in the first.

## Key results

- `Move.stamps` / `Move.leads`: a move writes blank stamps only, and moves the state forward
- `grows_step`: no step of the service takes back what a record tells
- `grows_reachable`: nor does any run
-/

namespace ContractPinger

open Machine WriteOnce

/-- How far a state is along the pipeline; both ends are equally far. -/
def JobState.place : JobState → Nat
  | .pending => 0
  | .signSent => 1
  | .awaitingSignature => 2
  | .verified => 3
  | .broadcast => 4
  | .confirmed => 5
  | .responded => 6
  | .failed => 6

/-- A job may come from one state to the other. -/
def JobState.Leads (state state' : JobState) : Prop :=
  state = state' ∨ state.place < state'.place

/-- Going forward twice is going forward. -/
theorem JobState.Leads.trans {a b c : JobState} (hab : a.Leads b) (hbc : b.Leads c) :
    a.Leads c := by
  rcases hab with rfl | hab
  · exact hbc
  · rcases hbc with rfl | hbc
    · exact .inr hab
    · exact .inr (Nat.lt_trans hab hbc)

/-- Every live state is before every end. -/
theorem JobState.Leads.of_terminal {state state' : JobState} (h : state.terminal = false)
    (h' : state'.terminal = true) : state.Leads state' := by
  refine .inr ?_
  revert h h'
  cases state <;> cases state' <;> decide

/-- What a report tells, the other tells too. -/
structure Report.Keeps (report report' : Report) : Prop where
  path : WriteOnce.Keeps report.path report'.path
  derivedAddress : WriteOnce.Keeps report.derivedAddress report'.derivedAddress
  requestId : WriteOnce.Keeps report.requestId report'.requestId
  nonce : WriteOnce.Keeps report.nonce report'.nonce
  solanaTx : WriteOnce.Keeps report.solanaTx report'.solanaTx
  ethTxHash : WriteOnce.Keeps report.ethTxHash report'.ethTxHash
  serializedOutput : WriteOnce.Keeps report.serializedOutput report'.serializedOutput

/-- What a record tells, the other tells too, and its state is no earlier. -/
structure JobRecord.Grows (r r' : JobRecord) : Prop where
  id : r'.id = r.id
  environment : r'.environment = r.environment
  mode : r'.mode = r.mode
  state : r.state.Leads r'.state
  report : r.report.Keeps r'.report
  stamps : KeepsRow r.timings.stamps r'.timings.stamps
  failureReason : WriteOnce.Keeps r.failureReason r'.failureReason
  error : WriteOnce.Keeps r.error r'.error

namespace Report.Keeps

variable {a b c : Report}

theorem refl (report : Report) : report.Keeps report :=
  ⟨.refl _, .refl _, .refl _, .refl _, .refl _, .refl _, .refl _⟩

theorem trans (hab : a.Keeps b) (hbc : b.Keeps c) : a.Keeps c :=
  ⟨hab.path.trans hbc.path, hab.derivedAddress.trans hbc.derivedAddress,
    hab.requestId.trans hbc.requestId, hab.nonce.trans hbc.nonce, hab.solanaTx.trans hbc.solanaTx,
    hab.ethTxHash.trans hbc.ethTxHash, hab.serializedOutput.trans hbc.serializedOutput⟩

/-- A report that tells nothing is kept by every other. -/
theorem empty (report : Report) : Report.Keeps {} report :=
  ⟨keeps_of_none rfl _, keeps_of_none rfl _, keeps_of_none rfl _, keeps_of_none rfl _,
    keeps_of_none rfl _, keeps_of_none rfl _, keeps_of_none rfl _⟩

end Report.Keeps

namespace JobRecord.Grows

variable {a b c : JobRecord}

theorem refl (r : JobRecord) : r.Grows r :=
  ⟨rfl, rfl, rfl, .inl rfl, .refl _, .refl _, .refl _, .refl _⟩

theorem trans (hab : a.Grows b) (hbc : b.Grows c) : a.Grows c :=
  ⟨hbc.id.trans hab.id, hbc.environment.trans hab.environment, hbc.mode.trans hab.mode,
    hab.state.trans hbc.state, hab.report.trans hbc.report, hab.stamps.trans hbc.stamps,
    hab.failureReason.trans hbc.failureReason, hab.error.trans hbc.error⟩

/-- The durations a reader has been told of stay as they were. -/
theorem durations (h : a.Grows b) (stage : LatencyStage) :
    WriteOnce.Keeps ((durationsFor a.timings).lookup stage.name)
      ((durationsFor b.timings).lookup stage.name) := by
  -- the stamps keep what they have
  have hstamp : ∀ (i : Nat) {t t' : Option Millis}, a.timings.stamps[i]? = some t →
      b.timings.stamps[i]? = some t' → WriteOnce.Keeps t t' := by
    intro i t t' ht ht' x hx
    rw [hx] at ht
    exact Option.some.inj (ht'.symm.trans (h.stamps i x ht))
  -- and so does a span, which is there when both of its ends are
  have hspan : ∀ {t t' u u' : Option Millis}, WriteOnce.Keeps t t' → WriteOnce.Keeps u u' →
      WriteOnce.Keeps (span t u) (span t' u') := by
    intro t t' u u' ht hu
    have hspan_eq : ∀ t u, span t u = Option.map₂ (fun x y => y - x) t u := by
      intro t u
      cases t <;> cases u <;> rfl
    rw [hspan_eq, hspan_eq]
    exact ht.map₂ hu _
  rw [lookup_durationsFor, lookup_durationsFor]
  cases stage with
  | leaseWaitMs => exact hspan (hstamp 0 rfl rfl) (hstamp 1 rfl rfl)
  | signatureMs => exact hspan (hstamp 2 rfl rfl) (hstamp 3 rfl rfl)
  | confirmationMs => exact hspan (hstamp 4 rfl rfl) (hstamp 5 rfl rfl)
  | respondMs => exact hspan (hstamp 5 rfl rfl) (hstamp 6 rfl rfl)
  | totalMs => exact hspan (hstamp 0 rfl rfl) (hstamp 7 rfl rfl)

end JobRecord.Grows

namespace Stage

/-- The stamps of the stages to come are blank. -/
def Unstamped (stage : Stage) (r : JobRecord) : Prop := Blank stage.stamped r.timings.stamps

variable {now : Millis} {a b : Stage} {ps : List JobPatch} {r : JobRecord}

/-- A move stamps the first blank places, if any. -/
theorem Move.stamps (hmove : Move now a b ps) (h : a.Unstamped r) :
    b.Unstamped (ps.foldl JobRecord.apply r) ∧
      KeepsRow r.timings.stamps (ps.foldl JobRecord.apply r).timings.stamps := by
  cases hmove with
  | stay stage ps hrun hsilent =>
    rw [Unstamped, (foldl_silent hsilent r).2.2]
    exact ⟨h, .refl _⟩
  | ask => exact ⟨h, .refl _⟩
  | lease => exact ⟨h.set (Nat.le_refl 1) _, h.keepsRow_set (Nat.le_refl 1) _⟩
  | request => exact ⟨h.set (Nat.le_refl 2) _, h.keepsRow_set (Nat.le_refl 2) _⟩
  | sign => exact ⟨h.set (Nat.le_refl 3) _, h.keepsRow_set (Nat.le_refl 3) _⟩
  | verify => exact ⟨h, .refl _⟩
  | broadcast => exact ⟨h.set (Nat.le_refl 4) _, h.keepsRow_set (Nat.le_refl 4) _⟩
  | confirm => exact ⟨h.set (Nat.le_refl 5) _, h.keepsRow_set (Nat.le_refl 5) _⟩
  | respond =>
    -- two stamps at one instant: `respondedAt`, then `finishedAt`
    have hresponded := h.set (Nat.le_refl 6) (some now)
    have hkept := h.keepsRow_set (Nat.le_refl 6) (some now)
    exact ⟨hresponded.set (Nat.le_refl 7) _,
      hkept.trans (hresponded.keepsRow_set (Nat.le_refl 7) _)⟩
  | mismatch =>
    have hresponded := h.set (Nat.le_refl 6) (some now)
    have hkept := h.keepsRow_set (Nat.le_refl 6) (some now)
    exact ⟨hresponded.set (Nat.le_refl 7) _,
      hkept.trans (hresponded.keepsRow_set (Nat.le_refl 7) _)⟩
  | fail stage reason error hopen =>
    exact ⟨h.set (stamped_le hopen) _, h.keepsRow_set (stamped_le hopen) _⟩
  | throw stage ps hrun hsilent =>
    have hopen : a ≠ .ended := by
      rintro rfl
      cases hrun
    rw [Unstamped, (foldl_silent hsilent r).2.2]
    exact ⟨h.mono (stamped_le hopen), .refl _⟩

/-- The state a running job's record is in. -/
theorem Tracks.state_eq {states : List JobState} (h : a.Tracks states r)
    (hrun : a.running = true) : JobState.pipeline[a.reached - 1]? = some r.state := by
  have hvisited := h.visited
  have hlast := h.state
  cases a <;> first
    | (have hstates : states = JobState.pipeline.take _ := hvisited
       rw [hstates] at hlast
       exact hlast)
    | cases hrun

/-- A move only takes the state forward. -/
theorem Move.leads (hmove : Move now a b ps) {states : List JobState} (h : a.Tracks states r) :
    r.state.Leads (ps.foldl JobRecord.apply r).state := by
  have hlive := h.live hmove.open
  -- from the state of this stage to the one written
  have hwrites : ∀ state state' : JobState, a.running = true →
      JobState.pipeline[a.reached - 1]? = some state → state.place < state'.place →
      r.state.Leads state' := by
    intro state state' hrun hstate hlt
    rw [h.state_eq hrun] at hstate
    rw [Option.some.inj hstate]
    exact .inr hlt
  cases hmove with
  | stay stage ps hrun hsilent => exact .inl (foldl_silent hsilent r).1.symm
  | throw stage ps hrun hsilent => exact .inl (foldl_silent hsilent r).1.symm
  | ask => exact .inl rfl
  | lease => exact .inl rfl
  | sign => exact .inl rfl
  | request => exact hwrites .pending .awaitingSignature rfl rfl (by decide)
  | verify => exact hwrites .awaitingSignature .verified rfl rfl (by decide)
  | broadcast => exact hwrites .verified .broadcast rfl rfl (by decide)
  | confirm => exact hwrites .broadcast .confirmed rfl rfl (by decide)
  | respond => exact .of_terminal hlive rfl
  | mismatch => exact .of_terminal hlive rfl
  | fail => exact .of_terminal hlive rfl

end Stage

/-! ## The report -/

namespace RoundTrip

variable {s : Setup} {who : Lessee} {rt rt' : RoundTrip} {n n' : Nat}

/-- What a record reports of a round trip, it reports of one that goes on like it. -/
theorem report_keeps (hbegins : rt.script.take n <+: rt'.script.take n') (hn : n ≤ 11) :
    (rt.report s who n).Keeps (rt'.report s who n') := by
  -- a line that has been said is said in both
  have hline : ∀ (i : Nat) {e e' : Exchange}, rt.script[i]? = some e → rt'.script[i]? = some e' →
      i < n → i < n' ∧ e = e' := by
    intro i e e' he he' hi
    have hsaid : (rt.script.take n)[i]? = some e := by rw [List.getElem?_take_of_lt hi, he]
    have hsaid' := List.prefix_iff_getElem?.mp hbegins i (List.getElem?_eq_some_iff.mp hsaid).1
    rw [(List.getElem?_eq_some_iff.mp hsaid).2] at hsaid'
    rw [List.getElem?_take] at hsaid'
    split at hsaid'
    · rename_i hi'
      exact ⟨hi', Option.some.inj (hsaid'.symm.trans he')⟩
    · cases hsaid'
  have hrequested : 3 < n → 3 < n' ∧ rt'.built s who = rt.built s who ∧ rt.balance = rt'.balance ∧
      rt.nonce = rt'.nonce := by
    intro hn
    have hbalance := (hline 0 rfl rfl (by omega)).2
    have hfees := (hline 2 rfl rfl (by omega)).2
    obtain ⟨hn', hgas⟩ := hline 3 rfl rfl hn
    simp only [Exchange.told.injEq, Reply.balance.injEq, Reply.nonceAndFees.injEq,
      Reply.gas.injEq] at hbalance hfees hgas
    refine ⟨hn', ?_, hbalance, hfees.1⟩
    rw [RoundTrip.built, RoundTrip.built, hfees.1, hfees.2, hgas]
  have hasked : (decide (3 < n) && rt.affordable s who) = true →
      (decide (3 < n') && rt'.affordable s who) = true ∧ rt'.built s who = rt.built s who ∧
        rt.nonce = rt'.nonce := by
    intro h
    obtain ⟨hn, haffords⟩ := Bool.and_eq_true_iff.mp h
    obtain ⟨hn', hbuilt, hbalance, hnonce⟩ := hrequested (of_decide_eq_true hn)
    refine ⟨Bool.and_eq_true_iff.mpr ⟨decide_eq_true hn', ?_⟩, hbuilt, hnonce⟩
    rwa [affordable, hbuilt, ← hbalance]
  refine ⟨.refl _, .refl _, keeps_ite fun h => ?_, keeps_ite fun h => ?_, keeps_ite fun h => ?_,
    keeps_ite fun h => ?_, keeps_ite fun h => ?_⟩
  · obtain ⟨hasked', hbuilt, _⟩ := hasked h
    exact ⟨hasked', by rw [requestId, requestId, hbuilt]⟩
  · obtain ⟨hasked', _, hnonce⟩ := hasked h
    exact ⟨hasked', hnonce⟩
  · obtain ⟨hn', htx⟩ := hline 6 rfl rfl h
    simp only [Exchange.told.injEq, Reply.solanaTx.injEq] at htx
    exact ⟨hn', htx⟩
  · obtain ⟨hn', hhash⟩ := hline 9 rfl rfl h
    simp only [Exchange.told.injEq, Reply.txHash.injEq] at hhash
    exact ⟨hn', hhash⟩
  · -- the last line has not been said yet
    omega

end RoundTrip

/-- Until it has ended, a job has not said the last line. -/
theorem Pc.Recalls.le {s : Setup} {who : Lessee} {rt : RoundTrip} {n : Nat} {pc : Pc}
    (h : pc.Recalls s who rt n) (hopen : pc.stage ≠ .ended) : n ≤ 11 := by
  cases pc with
  | ended => exact absurd rfl hopen
  | rejected => exact h
  | readingBalance => exact Nat.le_trans (Nat.le_of_eq h) (by decide)
  | broadcasting => exact Nat.le_trans (Nat.le_of_eq h) (by decide)
  | confirming => exact Nat.le_trans (Nat.le_of_eq h) (by decide)
  | readingNonce => exact Nat.le_trans (Nat.le_of_eq h.1) (by decide)
  | estimatingGas => exact Nat.le_trans (Nat.le_of_eq h.1) (by decide)
  | buildingInstruction => exact Nat.le_trans (Nat.le_of_eq h.1) (by decide)
  | sendingSolana => exact Nat.le_trans (Nat.le_of_eq h.1) (by decide)
  | awaitingSignature => exact Nat.le_trans (Nat.le_of_eq h.1) (by decide)
  | attachingSignature => exact Nat.le_trans (Nat.le_of_eq h.1) (by decide)
  | responding => exact Nat.le_of_eq h.1
  | _ => cases h

/-! ## The error -/

/-- The record gives no error without a reason. -/
def JobRecord.Reasoned (r : JobRecord) : Prop :=
  r.error.isSome = true → r.failureReason.isSome = true

/-- The stretch of code gives none either. -/
def Frame.Reasons (now : Millis) (next : Frame × List Effect) : Prop :=
  (patchesOf now next.2).all (fun p => p.error.isNone || p.failureReason.isSome) = true

/-- Patches that give a reason with every error keep the record reasoned. -/
theorem JobRecord.Reasoned.foldl {ps : List JobPatch}
    (hps : ps.all (fun p => p.error.isNone || p.failureReason.isSome) = true) {r : JobRecord}
    (h : r.Reasoned) : (ps.foldl JobRecord.apply r).Reasoned := by
  induction ps generalizing r with
  | nil => exact h
  | cons p rest ih =>
    rw [List.all_cons, Bool.and_eq_true, Bool.or_eq_true] at hps
    refine ih hps.2 fun herror => ?_
    rw [JobRecord.apply] at herror ⊢
    simp only [Option.isSome_or, Bool.or_eq_true, Option.orElse_eq_orElse, Option.orElse_eq_or]
      at herror ⊢
    -- a patch that brings an error brings its reason
    rcases hps.1 with hnone | hreason
    · rw [Option.isNone_iff_eq_none.mp hnone] at herror
      exact .inr (h (herror.resolve_left (by simp)))
    · exact .inl hreason

namespace Frame

variable {s : Setup} {view : RunView} {job : Nat} {f : Frame} {reply : Reply}
  {next : Frame × List Effect}

/-- The `finally` block gives none. -/
theorem reasons_finish {now : Millis} {g : Frame} {pc : Pc} {effects : List Effect}
    (h : Reasons now (g, effects)) : Reasons now (g.finish pc effects) := by
  show (patchesOf now (effects ++ g.releaseLease.2)).all _ = true
  rw [patchesOf_releaseLease]
  exact h

/-- Past a `throwIfAborted`. -/
theorem reasons_proceed {now : Millis} {g : Frame} {pc : Pc} {before after : List Effect}
    (h : Reasons now (g, before)) (h' : Reasons now (g, before ++ after)) :
    Reasons now (g.proceed pc before after) := by
  unfold proceed
  split
  · exact reasons_finish h
  · exact h'

/-- From `leasing` on. -/
theorem resumeLeased_reasons {path : String} {pc : Pc}
    (h : f.resumeLeased s view job path pc reply = some next) : Reasons view.now next := by
  cases resumeLeased_stretch h
  case funded => exact reasons_proceed rfl rfl
  case built => exact reasons_proceed rfl rfl
  case nonceFailed | estimateFailed =>
    unfold resumeLeased.buildFailed
    split
    · exact reasons_finish rfl
    · exact reasons_finish rfl
  case confirmed released effects hrel =>
    have heffects : effects = f.releaseLease.2 := by rw [hrel]
    subst heffects
    show (patchesOf view.now ([_] ++ f.releaseLease.2)).all _ = true
    rw [patchesOf_releaseLease]
    rfl
  -- the other ways on suspend, return or throw
  all_goals first
    | exact reasons_finish rfl
    | rfl

/-- No resumption gives an error without a reason. -/
theorem resume_reasons (h : f.resume s view job reply = some next) : Reasons view.now next := by
  cases resume_stretch h
  case asked => exact reasons_proceed rfl rfl
  case works h => exact resumeLeased_reasons h
  all_goals first
    | exact reasons_finish rfl
    | rfl

end Frame

/-! ## Every step -/

/-- No patch changes whose record it is, or on what network. -/
theorem JobRecord.foldl_same (ps : List JobPatch) (r : JobRecord) :
    (ps.foldl JobRecord.apply r).id = r.id ∧
      (ps.foldl JobRecord.apply r).environment = r.environment := by
  induction ps generalizing r with
  | nil => exact ⟨rfl, rfl⟩
  | cons p rest ih => exact ih (r.apply p)

namespace World

variable {s : Setup} {w w' : World} {a : Action} {start : Millis}

/-- What no stage of a job has written on its record yet is blank. -/
def UnwrittenInv (w : World) : Prop :=
  ∀ r ∈ w.jobs.jobs, r.Reasoned ∧
    ∀ f : Frame, w.frames[r.id]? = some f → f.pc.stage.Unstamped r

/-- A step writes what its stage writes, and leaves the rest blank. -/
theorem unwrittenInv_step (hjobs : w.JobsInv) (h : w.UnwrittenInv)
    (hstep : step s w a = some w') : w'.UnwrittenInv := by
  intro r' hr'
  cases step_jobs hstep with
  | accepted mode f hstart hstage hframes _ _ _ _ =>
    have hother : a.resumed ≠ some (.job r'.id) := by simp [hstart, Action.resumed]
    rcases record_of_other hjobs hstep hother hr' rfl with hr | ⟨mode, _, rfl⟩
    · refine ⟨(h r' hr).1, fun g hg => ?_⟩
      rw [hframes, List.getElem?_append_left (hjobs.id_lt hr)] at hg
      exact (h r' hr).2 g hg
    · refine ⟨fun herror => (by cases herror), fun g hg => ?_⟩
      rw [hframes] at hg
      obtain rfl : g = f := Option.some.inj (hg.symm.trans List.getElem?_concat_length)
      -- a new record has the stamp it was accepted at, and no other
      rcases hstage with hstage | hstage <;> rw [hstage] <;>
        simp [Stage.Unstamped, Blank, Stage.stamped, JobTimings.stamps, JobStore.newJob]
  | moved job reply f f' ps hresume hf _ hframes _ _ _ _ =>
    subst hresume
    by_cases hid : r'.id = job
    · obtain ⟨f₁, next, hf₁, hresume, hframes', hmove, hheld⟩ := record_of_resume hjobs hstep
      obtain ⟨r, ⟨hr, rfl⟩, heq⟩ := hheld r' ⟨hr', hid⟩
      have hreasons : Frame.Reasons w.now next := Frame.resume_reasons hresume
      refine ⟨heq ▸ (h r hr).1.foldl hreasons, fun g hg => ?_⟩
      rw [hframes', hid, List.getElem?_set_self (List.getElem?_eq_some_iff.mp hf).1] at hg
      rw [← Option.some.inj hg, heq]
      exact (hmove.stamps ((h r hr).2 f₁ hf₁)).1
    · have hother : (Action.resume job reply).resumed ≠ some (.job r'.id) := by
        simp [Action.resumed, Ne.symm hid]
      rcases record_of_other hjobs hstep hother hr' rfl with hr | ⟨mode, hstart, _⟩
      · refine ⟨(h r' hr).1, fun g hg => ?_⟩
        rw [hframes, List.getElem?_set_ne (Ne.symm hid)] at hg
        exact (h r' hr).2 g hg
      · cases hstart
  | quiet _ hframes hsame _ _ =>
    rw [hsame] at hr'
    refine ⟨(h r' hr').1, fun g hg => ?_⟩
    obtain ⟨f, hf, hpc⟩ := frame_of_map_pc hframes.symm hg
    rw [← hpc]
    exact (h r' hr').2 f hf

/-- What is ahead of a job is blank on its record, in every reachable state. -/
theorem unwrittenInv_reachable (h : Reachable (step s) (World.new s start) w) :
    w.UnwrittenInv :=
  h.invariant' (fun _ hr => by cases hr) fun _ _ _ hreach hinv _ hstep =>
    unwrittenInv_step (jobsInv_reachable hreach) hinv hstep

/-- No step takes back what the record of a job tells, and none brings back a record that is
    gone. -/
theorem grows_step (hreach : Reachable (step s) (World.new s start) w)
    (hstep : step s w a = some w') {job : Nat} (hjob : job < w.frames.length) {r' : JobRecord}
    (hr' : r' ∈ w'.jobs.jobs) (hid' : r'.id = job) :
    ∃ r ∈ w.jobs.jobs, r.id = job ∧ r.Grows r' := by
  have hjobs := jobsInv_reachable hreach
  by_cases ha : a.resumed = some (.job job)
  · obtain ⟨reply, rfl⟩ : ∃ reply, a = .resume job reply := by
      cases a <;> simp only [Action.resumed, Option.some.injEq, Proc.job.injEq, reduceCtorEq] at ha
      exact ⟨_, by rw [ha]⟩
    -- the job itself goes on: its record is the old one under the patches of the step
    obtain ⟨f, next, hf, hresume, _, hmove, hheld⟩ := record_of_resume hjobs hstep
    obtain ⟨r, ⟨hr, hid⟩, heq⟩ := hheld r' ⟨hr', hid'⟩
    have htracks := hjobs.tracks_frame hr (hid ▸ hf)
    obtain ⟨hreasoned, hunstamped⟩ := unwrittenInv_reachable hreach r hr
    -- a job still going has no reason yet, and no error without a reason
    have hreason := htracks.failureReason hmove.open
    have herror : r.error = none := by
      rw [← Option.not_isSome_iff_eq_none]
      intro hsome
      have hreasoned := hreasoned hsome
      rw [hreason] at hreasoned
      cases hreasoned
    -- what it reports comes from its transaction's script, which only grows
    have hreport : r.report.Keeps r'.report := by
      obtain ⟨as, has⟩ := exec_of_reachable hreach
      rcases (said_dialogue has job).travels f hf with hhome | ⟨who, rt, n, htrip⟩
      · rw [(hhome.reported r ⟨hr, hid⟩).2.1]
        exact .empty _
      · obtain ⟨rt', n', htrip'⟩ :=
          htrip.resume (address_of_trip hreach hf htrip) hresume hheld
        have hbegins : rt.script.take n <+: rt'.script.take n' := by
          rw [← htrip.said, ← htrip'.said]
          exact List.prefix_append _ _
        rw [(htrip.reported r ⟨hr, hid⟩).report, (htrip'.reported r' ⟨hr', hid'⟩).report]
        exact RoundTrip.report_keeps hbegins (htrip.recalls.le hmove.open)
    obtain ⟨hsameId, hsameEnvironment⟩ :=
      JobRecord.foldl_same (patchesOf w.now next.2) r
    have hmode := JobRecord.mode_foldl (patchesOf w.now next.2) r
    rw [← heq] at hsameId hsameEnvironment hmode
    refine ⟨r, hr, hid, hsameId, hsameEnvironment, hmode, ?_, hreport, ?_,
      keeps_of_none hreason _, keeps_of_none herror _⟩
    · rw [heq]
      exact hmove.leads htracks
    · rw [heq]
      exact (hmove.stamps (hunstamped f (hid ▸ hf))).2
  · -- another's step leaves the record alone
    rcases record_of_other hjobs hstep ha hr' hid' with hr | ⟨mode, _, rfl⟩
    · exact ⟨r', hr, hid', .refl r'⟩
    · -- a record just made is of a job accepted after this one
      have hid' : w.frames.length = job := hid'
      omega

/-- Nor does any run. -/
theorem grows_reachable (h : Reachable (step s) (World.new s start) w)
    (h' : Reachable (step s) w w') {job : Nat} (hjob : job < w.frames.length) :
    job < w'.frames.length ∧ ∀ r', w'.jobs.get? job = some r' →
      ∃ r, w.jobs.get? job = some r ∧ r.Grows r' := by
  have hnodup := (jobsInv_reachable h).ids_nodup
  -- on the steps of the run, each record's growth following on the last
  have hgrows : job < w'.frames.length ∧ ∀ r' ∈ w'.jobs.jobs, r'.id = job →
      ∃ r ∈ w.jobs.jobs, r.id = job ∧ r.Grows r' := by
    refine h'.invariant' (I := fun w' => job < w'.frames.length ∧ ∀ r' ∈ w'.jobs.jobs,
      r'.id = job → ∃ r ∈ w.jobs.jobs, r.id = job ∧ r.Grows r')
      ⟨hjob, fun r hr hid => ⟨r, hr, hid, .refl r⟩⟩ ?_
    intro w₁ a w₂ hreach hinv _ hstep
    refine ⟨Nat.lt_of_lt_of_le hinv.1 (frames_length_step hstep), fun r₂ hr₂ hid₂ => ?_⟩
    obtain ⟨r₁, hr₁, hid₁, hgrows₂⟩ := grows_step (h.trans hreach) hstep hinv.1 hr₂ hid₂
    obtain ⟨r, hr, hid, hgrows₁⟩ := hinv.2 r₁ hr₁ hid₁
    exact ⟨r, hr, hid, hgrows₁.trans hgrows₂⟩
  refine ⟨hgrows.1, fun r' hr' => ?_⟩
  obtain ⟨hmem', hid'⟩ := JobStore.mem_of_get? hr'
  obtain ⟨r, hr, rfl, hle⟩ := hgrows.2 r' hmem' hid'
  exact ⟨r, JobStore.get?_of_mem hnodup hr, hle⟩

end World

end ContractPinger
