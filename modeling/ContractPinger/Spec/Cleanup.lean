import ContractPinger.Spec.DerivationCheck
import ContractPinger.Spec.Promises

/-!
# Cleanup on every exit

`run()` has some twenty exits: returns and throws in every phase, and a `finally` block on the
way out of all of them. What the exits owe is kept here as the job's account: the calls it has
made and the answers its `await`s got, against the `await` it is suspended at. The account is
balanced from one `await` to the next, whatever the answer, and read off when the run is over.

## Key results

- `Frame.resume_accounts`: one resumption keeps the account
- `Frame.resume_tidy`: so it does the controller and the timer
- `quarantine_step`: the stretch of code that quarantines, and what the release after it grants
- `run_cleans_up`: every ending of every run
-/

namespace ContractPinger

open Machine

/-- The calls that end the use of an address. -/
def Effect.cleansUp : Effect → Bool
  | .quarantine _ _ => true
  | .release _ => true
  | _ => false

/-- What a job has called to end the use of its address, in order. -/
def cleanups (calls : List Effect) : List Effect := calls.filter Effect.cleansUp

/-- `sendRawTransaction` has been invoked. -/
def sent (calls : List Effect) : Bool := calls.any Effect.sends

def Reply.isReceipt : Reply → Bool
  | .receipt _ => true
  | _ => false

/-- A receipt has been obtained. -/
def receiptObtained (replies : List Reply) : Bool := replies.any Reply.isReceipt

/-- The nonce `buildTransaction` reads, which becomes `built.nonce`. -/
def Reply.nonce? : Reply → Option Nat
  | .nonceAndFees nonce _ => some nonce
  | _ => none

/-- The nonces a job has been answered. -/
def noncesRead (replies : List Reply) : List Nat := replies.filterMap Reply.nonce?

/-- The parts of `run()`, as far as its cleanup goes. -/
inductive Leg
  /-- Nothing has been broadcast. -/
  | early
  /-- Broadcast, and no receipt yet. -/
  | sent
  /-- The receipt is there, and the lease has been released. -/
  | settled
  | over
deriving DecidableEq, Repr

def Pc.leg : Pc → Leg
  | .broadcasting _ _ => .sent
  | .confirming _ _ => .sent
  | .responding => .settled
  | .rejected _ => .over
  | .ended => .over
  | _ => .early

/-- The nonce of the transaction being built or under way. -/
def Pc.nonce? : Pc → Option Nat
  | .estimatingGas _ nonce _ => some nonce
  | .buildingInstruction built => some built.nonce
  | .sendingSolana built => some built.nonce
  | .awaitingSignature built => some built.nonce
  | .attachingSignature built _ => some built.nonce
  | .broadcasting built _ => some built.nonce
  | .confirming built _ => some built.nonce
  | _ => none

section Append

variable (calls effects : List Effect) (replies : List Reply) (reply : Reply)

@[simp] theorem cleanups_append :
    cleanups (calls ++ effects) = cleanups calls ++ cleanups effects :=
  List.filter_append calls effects

@[simp] theorem sent_append : sent (calls ++ effects) = (sent calls || sent effects) :=
  List.any_append

@[simp] theorem receiptObtained_concat :
    receiptObtained (replies ++ [reply]) = (receiptObtained replies || reply.isReceipt) := by
  simp [receiptObtained]

@[simp] theorem noncesRead_concat :
    noncesRead (replies ++ [reply]) = noncesRead replies ++ reply.nonce?.toList := by
  cases hreply : reply.nonce? <;> simp [noncesRead, hreply]

end Append

namespace Frame

/-- The run goes on, and has cleaned nothing up yet. -/
structure Open (f : Frame) (sends : Bool) (calls : List Effect) (replies : List Reply) :
    Prop where
  cleanups : cleanups calls = []
  sent : sent calls = sends
  receiptObtained : receiptObtained replies = false
  nonces : noncesRead replies = f.pc.nonce?.toList

/-- The run is over: it has quarantined its worker and released it, or only released it. -/
def Closed (f : Frame) (calls : List Effect) (replies : List Reply) : Prop :=
  if sent calls = true ∧ receiptObtained replies = false then
    ∃ path nonce, f.worker = some path ∧ noncesRead replies = [nonce] ∧
      cleanups calls = [.quarantine path nonce, .release path]
  else cleanups calls = f.worker.toList.map Effect.release

/-- What a job has done about its address, by the `await` it is suspended at. -/
def Accounts (f : Frame) (calls : List Effect) (replies : List Reply) : Prop :=
  match f.pc.leg with
  | .early => f.Open false calls replies
  | .sent => f.Open true calls replies
  | .settled => sent calls = true ∧ receiptObtained replies = true ∧
      cleanups calls = f.worker.toList.map Effect.release
  | .over => f.Closed calls replies

section Legs

variable {f : Frame} {calls : List Effect} {replies : List Reply}

/-- Nothing sent, nothing cleaned up. -/
theorem accounts_early (h : f.pc.leg = .early) :
    f.Accounts calls replies ↔ f.Open false calls replies := by
  simp only [Accounts, h]

/-- Sent, and nothing cleaned up yet. -/
theorem accounts_sent (h : f.pc.leg = .sent) :
    f.Accounts calls replies ↔ f.Open true calls replies := by
  simp only [Accounts, h]

/-- Sent, confirmed and released. -/
theorem accounts_settled (h : f.pc.leg = .settled) :
    f.Accounts calls replies ↔ sent calls = true ∧ receiptObtained replies = true ∧
      cleanups calls = f.worker.toList.map Effect.release := by
  simp only [Accounts, h]

/-- The account is closed. -/
theorem accounts_over (h : f.pc.leg = .over) :
    f.Accounts calls replies ↔ f.Closed calls replies := by
  simp only [Accounts, h]

end Legs

/-! ## The ways on from an `await`, seen from the account -/

section Ways

variable {f : Frame} {calls effects : List Effect} {replies : List Reply} {reply : Reply} {pc : Pc}

/-- While the lease is not over, the `finally` block releases what has been leased. -/
theorem releaseLease_calls (hwf : f.Wf) (hphase : f.phase ≠ .after) :
    f.releaseLease.2 = f.worker.toList.map Effect.release := by
  cases hf : f.phase with
  | after => exact absurd hf hphase
  | before | waiting =>
    simp only [Wf, hf] at hwf
    simp [releaseLease, hwf.1]
  | held =>
    simp only [Wf, hf, Option.isSome_iff_exists] at hwf
    obtain ⟨⟨path, hpath⟩, hfalse⟩ := hwf
    simp [releaseLease, hpath, hfalse]

/-- Before the broadcast the lease is not over. -/
theorem phase_of_early (hleg : f.pc.leg = .early) : f.phase ≠ .after := by
  unfold phase
  cases hpc : f.pc <;> simp [hpc, Pc.leg, Pc.stage, Stage.phase] at hleg ⊢

/-- A release is a cleanup. -/
theorem cleanups_releases (worker : Option String) :
    cleanups (worker.toList.map Effect.release) = worker.toList.map Effect.release := by
  cases worker <;> rfl

/-- A release sends nothing. -/
theorem sent_releases (worker : Option String) :
    sent (worker.toList.map Effect.release) = false := by
  cases worker <;> rfl

/-- Before the broadcast, going on to the next `await`. -/
theorem accounts_await (h : f.Accounts calls replies) (hleg : f.pc.leg = .early)
    (hpc : pc.leg = .early) (hnonce : pc.nonce?.toList = f.pc.nonce?.toList ++ reply.nonce?.toList)
    (hclean : cleanups effects = []) (hsent : sent effects = false)
    (hreply : reply.isReceipt = false) {g : Frame} :
    Accounts (g.await pc effects).1 (calls ++ (g.await pc effects).2) (replies ++ [reply]) := by
  rw [accounts_early hleg] at h
  refine (accounts_early hpc).mpr ⟨?_, ?_, ?_, ?_⟩
  · rw [cleanups_append, h.cleanups]
    exact hclean
  · rw [sent_append, h.sent]
    exact hsent
  · rw [receiptObtained_concat, h.receiptObtained]
    exact hreply
  · rw [noncesRead_concat, h.nonces]
    exact hnonce.symm

/-- Before the broadcast, leaving: the `finally` block releases what has been leased. -/
theorem accounts_finish (hwf : f.Wf) (h : f.Accounts calls replies) (hleg : f.pc.leg = .early)
    (hpc : pc.leg = .over) (hclean : cleanups effects = []) (hsent : sent effects = false) :
    Accounts (f.finish pc effects).1 (calls ++ (f.finish pc effects).2) (replies ++ [reply]) := by
  rw [accounts_early hleg] at h
  have hworker := finish_worker f pc effects
  have hcalls : (f.finish pc effects).2 = effects ++ f.worker.toList.map Effect.release := by
    rw [← releaseLease_calls hwf (phase_of_early hleg)]
    rfl
  refine (accounts_over hpc).mpr ?_
  rw [Closed, hworker, hcalls]
  simp [h.cleanups, h.sent, hclean, hsent, cleanups_releases, sent_releases]

/-- Before the broadcast, past a `throwIfAborted`: the job goes on, or it leaves. -/
theorem accounts_proceed {before after : List Effect} (hwf : f.Wf) (h : f.Accounts calls replies)
    (hleg : f.pc.leg = .early) (hpc : pc.leg = .early)
    (hnonce : pc.nonce?.toList = f.pc.nonce?.toList ++ reply.nonce?.toList)
    (hbefore : cleanups before = [] ∧ sent before = false)
    (hafter : cleanups after = [] ∧ sent after = false) (hreply : reply.isReceipt = false) :
    Accounts (f.proceed pc before after).1 (calls ++ (f.proceed pc before after).2)
      (replies ++ [reply]) := by
  unfold proceed
  split
  · -- aborted meanwhile: `throwIfAborted` throws
    exact accounts_finish hwf h hleg rfl hbefore.1 hbefore.2
  · refine accounts_await h hleg hpc hnonce ?_ ?_ hreply
    · rw [cleanups_append, hbefore.1, hafter.1]
      rfl
    · rw [sent_append, hbefore.2, hafter.2]
      rfl

/-- A build that failed leaves, whether for want of funds or not. -/
theorem accounts_buildFailed {job balance : Nat} {path : String} {e : JsError} (hwf : f.Wf)
    (h : f.Accounts calls replies) (hleg : f.pc.leg = .early) :
    Accounts (resumeLeased.buildFailed job path f balance e).1
      (calls ++ (resumeLeased.buildFailed job path f balance e).2) (replies ++ [reply]) := by
  unfold resumeLeased.buildFailed
  split
  · exact accounts_finish hwf h hleg rfl rfl rfl
  · exact accounts_finish hwf h hleg rfl rfl rfl

/-- After the broadcast and without a receipt, giving up: the address is quarantined first. -/
theorem accounts_givesUp {path : String} {nonce : Nat} {fail : Effect} (hwf : f.Wf)
    (h : f.Accounts calls replies) (hleg : f.pc.leg = .sent) (hheld : f.phase = .held)
    (hworker : f.worker = some path) (hnonce : f.pc.nonce? = some nonce)
    (hfail : cleanups [fail] = [] ∧ sent [fail] = false) (hreply : reply.isReceipt = false)
    (hread : reply.nonce? = none) :
    Accounts (f.returns [.quarantine path nonce, fail]).1
      (calls ++ (f.returns [.quarantine path nonce, fail]).2) (replies ++ [reply]) := by
  rw [accounts_sent hleg] at h
  have hrelease := releaseLease_of_held hwf hheld hworker
  have hkept : (f.returns [.quarantine path nonce, fail]).1.worker = some path :=
    (finish_worker f _ _).trans hworker
  -- the quarantine comes before the release, in the same step
  have hcalls : (f.returns [.quarantine path nonce, fail]).2 =
      [.quarantine path nonce] ++ [fail] ++ [.release path] := by
    simp [returns, finish, hrelease]
  have hover : (f.returns [.quarantine path nonce, fail]).1.pc.leg = .over := rfl
  have hsent : sent (calls ++ (f.returns [.quarantine path nonce, fail]).2) = true := by
    simp [h.sent]
  have hnone : receiptObtained (replies ++ [reply]) = false := by simp [h.receiptObtained, hreply]
  -- sent and without a receipt: the quarantine is what is owed
  rw [accounts_over hover, Closed, if_pos ⟨hsent, hnone⟩]
  refine ⟨path, nonce, hkept, ?_, ?_⟩
  · rw [noncesRead_concat, h.nonces, hnonce, hread]
    rfl
  · rw [hcalls, cleanups_append, cleanups_append, cleanups_append, h.cleanups, hfail.1]
    rfl

/-- After the broadcast, with a receipt, leaving. -/
theorem accounts_reverted (hwf : f.Wf) (h : f.Accounts calls replies) (hleg : f.pc.leg = .sent)
    (hheld : f.phase = .held) (hclean : cleanups effects = [])
    (hreply : reply.isReceipt = true) :
    Accounts (f.returns effects).1 (calls ++ (f.returns effects).2) (replies ++ [reply]) := by
  rw [accounts_sent hleg] at h
  have hworker : (f.returns effects).1.worker = f.worker := finish_worker f _ _
  have hcalls : (f.returns effects).2 = effects ++ f.worker.toList.map Effect.release := by
    rw [← releaseLease_calls hwf (by simp [hheld])]
    rfl
  have hover : (f.returns effects).1.pc.leg = .over := rfl
  rw [accounts_over hover, Closed, hworker, hcalls]
  simp [h.cleanups, hclean, hreply, cleanups_releases]

/-- After the early release, leaving: the `finally` block finds the lease released. -/
theorem accounts_responded {g : Frame} (hwf : f.Wf) (h : f.Accounts calls replies)
    (hleg : f.pc.leg = .settled) (hworker : g.worker = f.worker)
    (hreleased : g.leaseReleased = f.leaseReleased) (hclean : cleanups effects = []) :
    Accounts (g.returns effects).1 (calls ++ (g.returns effects).2) (replies ++ [reply]) := by
  have hafter : f.phase = .after := by
    unfold phase
    cases hpc : f.pc <;> simp [hpc, Pc.leg] at hleg
    rfl
  rw [accounts_settled hleg] at h
  simp only [Wf, hafter] at hwf
  -- the worker was released when the receipt came, so there is nothing left to release
  have hrelease : g.releaseLease = (g, []) := by
    rcases g.releaseLease_cases with ⟨path, hpath, hfalse, _⟩ | ⟨_, heq⟩
    · rw [hworker] at hpath
      rw [hreleased] at hfalse
      simp [hpath, hfalse] at hwf
    · exact heq
  have hkept : (g.returns effects).1.worker = f.worker := (finish_worker g _ _).trans hworker
  have hcalls : (g.returns effects).2 = effects := by simp [returns, finish, hrelease]
  have hover : (g.returns effects).1.pc.leg = .over := rfl
  rw [accounts_over hover, Closed, hkept, hcalls]
  simp [h.2.1, h.2.2, hclean]

end Ways

/-! ## One resumption -/

/-- From `leasing` on. -/
theorem resumeLeased_accounts {s : Setup} {view : RunView} {job : Nat} {path : String} {f : Frame}
    {reply : Reply} {next : Frame × List Effect} {calls : List Effect} {replies : List Reply}
    (hwf : f.Wf) (hworker : f.worker = some path) (h : f.Accounts calls replies)
    (hresume : f.resumeLeased s view job path f.pc reply = some next) :
    next.1.Accounts (calls ++ next.2) (replies ++ [reply]) := by
  generalize hpc : f.pc = pc at hresume
  have hf : f.phase = pc.stage.phase := by rw [phase, hpc]
  have hleg : f.pc.leg = pc.leg := by rw [hpc]
  have hnonce : f.pc.nonce? = pc.nonce? := by rw [hpc]
  cases resumeLeased_stretch hresume
  -- the preflight
  case poor => exact accounts_finish hwf h hleg rfl rfl rfl
  case funded =>
    exact accounts_proceed hwf h hleg rfl (by rw [hnonce]; rfl) ⟨rfl, rfl⟩ ⟨rfl, rfl⟩ rfl
  case balanceFailed => exact accounts_finish hwf h hleg rfl rfl rfl
  -- the build
  case nonceRead => exact accounts_await h hleg rfl (by rw [hnonce]; rfl) rfl rfl rfl
  case nonceFailed => exact accounts_buildFailed hwf h hleg
  case unaffordable => exact accounts_finish hwf h hleg rfl rfl rfl
  case built =>
    exact accounts_proceed hwf h hleg rfl (by rw [hnonce]; rfl) ⟨rfl, rfl⟩ ⟨rfl, rfl⟩ rfl
  case estimateFailed => exact accounts_buildFailed hwf h hleg
  -- the Solana send
  case instructed => exact accounts_await h hleg rfl (by rw [hnonce]; rfl) rfl rfl rfl
  case uninstructed => exact accounts_finish hwf h hleg rfl rfl rfl
  case requested => exact accounts_await h hleg rfl (by rw [hnonce]; rfl) rfl rfl rfl
  case unrequested => exact accounts_finish hwf h hleg rfl rfl rfl
  -- the signature
  case signed => exact accounts_await h hleg rfl (by rw [hnonce]; rfl) rfl rfl rfl
  case unsigned => exact accounts_finish hwf h hleg rfl rfl rfl
  case unattached => exact accounts_finish hwf h hleg rfl rfl rfl
  case mismatched => exact accounts_finish hwf h hleg rfl rfl rfl
  case verified =>
    -- the broadcast
    rw [accounts_early hleg] at h
    refine ⟨?_, ?_, ?_, ?_⟩
    · rw [cleanups_append, h.cleanups]
      rfl
    · rw [sent_append]
      exact Bool.or_true _
    · rw [receiptObtained_concat, h.receiptObtained]
      rfl
    · rw [noncesRead_concat, h.nonces, hnonce]
      exact List.append_nil _
  -- broadcast and confirmation
  case broadcast =>
    rw [accounts_sent hleg] at h
    refine ⟨?_, ?_, ?_, ?_⟩
    · rw [cleanups_append, h.cleanups]
      rfl
    · rw [sent_append, h.sent]
      rfl
    · rw [receiptObtained_concat, h.receiptObtained]
      rfl
    · rw [noncesRead_concat, h.nonces, hnonce]
      exact List.append_nil _
  case broadcastFailed built _ e =>
    exact accounts_givesUp hwf h hleg hf hworker hnonce ⟨rfl, rfl⟩ rfl rfl
  case confirmed released effects hrel =>
    rw [accounts_sent hleg] at h
    rw [releaseLease_of_held hwf hf hworker, Prod.mk.injEq] at hrel
    obtain ⟨rfl, rfl⟩ := hrel
    refine ⟨?_, ?_, ?_⟩
    · rw [sent_append, h.sent]
      rfl
    · rw [receiptObtained_concat]
      exact Bool.or_true _
    · show _ = f.worker.toList.map Effect.release
      rw [cleanups_append, h.cleanups, hworker]
      rfl
  case reverted => exact accounts_reverted hwf h hleg hf rfl rfl
  case unconfirmed built _ e =>
    exact accounts_givesUp hwf h hleg hf hworker hnonce ⟨rfl, rfl⟩ rfl rfl
  -- the respond
  case unexpected => exact accounts_responded hwf h hleg rfl rfl rfl
  case responded => exact accounts_responded hwf h hleg rfl rfl rfl
  case unresponded => exact accounts_responded hwf h hleg rfl rfl rfl

/-- Whatever an `await` is answered, the account stays balanced. -/
theorem resume_accounts {s : Setup} {view : RunView} {job : Nat} {f : Frame} {reply : Reply}
    {next : Frame × List Effect} {calls : List Effect} {replies : List Reply} (hwf : f.Wf)
    (h : f.Accounts calls replies) (hresume : f.resume s view job reply = some next) :
    next.1.Accounts (calls ++ next.2) (replies ++ [reply]) := by
  cases resume_stretch hresume
  -- `ensureAddresses`
  case underived hpc _ _ => exact accounts_finish hwf h (by rw [hpc]; rfl) rfl rfl rfl
  case derived hpc _ => exact accounts_await h (by rw [hpc]; rfl) rfl (by rw [hpc]; rfl) rfl rfl rfl
  -- `reconcileQuarantined`
  case counted hpc => exact accounts_await h (by rw [hpc]; rfl) rfl (by rw [hpc]; rfl) rfl rfl rfl
  case uncounted hpc => exact accounts_finish hwf h (by rw [hpc]; rfl) rfl rfl rfl
  case reconciled hpc =>
    exact accounts_await h (by rw [hpc]; rfl) rfl (by rw [hpc]; rfl) rfl rfl rfl
  -- `refreshUnderfunded`
  case refreshed hpc => exact accounts_await h (by rw [hpc]; rfl) rfl (by rw [hpc]; rfl) rfl rfl rfl
  case unrefreshed hpc => exact accounts_finish hwf h (by rw [hpc]; rfl) rfl rfl rfl
  case asked hpc =>
    exact accounts_proceed hwf h (by rw [hpc]; rfl) rfl (by rw [hpc]; rfl) ⟨rfl, rfl⟩ ⟨rfl, rfl⟩ rfl
  -- `acquireWithin`
  case refused hpc _ _ => exact accounts_finish hwf h (by rw [hpc]; rfl) rfl rfl rfl
  case leased hpc path _ =>
    exact accounts_await h (by rw [hpc]; rfl) rfl (by rw [hpc]; rfl) rfl rfl rfl
  -- the `catch` of `start`
  case recorded e hpc =>
    have hleg : f.pc.leg = .over := by rw [hpc]; rfl
    rw [accounts_over hleg] at h
    show Closed _ _ _
    have hsent : sent (calls ++ [.fail job e.failureReason e]) = sent calls := by
      rw [sent_append]
      exact Bool.or_false _
    have hreceived : receiptObtained (replies ++ [.resume]) = receiptObtained replies := by
      rw [receiptObtained_concat]
      exact Bool.or_false _
    have hclean : cleanups (calls ++ [.fail job e.failureReason e]) = cleanups calls := by
      rw [cleanups_append]
      exact List.append_nil _
    have hnonces : noncesRead (replies ++ [.resume]) = noncesRead replies := by
      rw [noncesRead_concat]
      exact List.append_nil _
    rw [Closed, hsent, hreceived, hclean, hnonces]
    exact h
  case works hresume => exact resumeLeased_accounts hwf ‹f.worker = some _› h hresume

/-- The account is kept at the `await` and by the worker. -/
theorem accounts_congr {f g : Frame} {calls : List Effect} {replies : List Reply}
    (hpc : g.pc = f.pc) (hworker : g.worker = f.worker) :
    g.Accounts calls replies ↔ f.Accounts calls replies := by
  have hopen : ∀ sends, g.Open sends calls replies ↔ f.Open sends calls replies := by
    intro sends
    constructor
    · exact fun h => ⟨h.cleanups, h.sent, h.receiptObtained, hpc ▸ h.nonces⟩
    · exact fun h => ⟨h.cleanups, h.sent, h.receiptObtained, hpc.symm ▸ h.nonces⟩
  simp only [Accounts, Closed, hpc, hworker, hopen]

/-! ## The controller and the timer -/

/-- Once the run is over its controller is aborted and off the list, and no timer is left
    pending. Without a Solana context `run()` rejects before it has a controller. -/
structure Tidy (s : Setup) (f : Frame) : Prop where
  unlisted : f.pc.leg = .over → f.listed = false
  aborted : f.pc.leg = .over → f.aborted.isSome = true ∨ ∃ error, s.solana = .error error
  deadline : f.pc.leg ≠ .settled → f.respondDeadline = false

section Tidy

variable {s : Setup} {f g : Frame} {pc : Pc} {effects : List Effect}

/-- Going on to the next `await` leaves controller and timer alone. -/
theorem Tidy.await (h : f.Tidy s) (hleg : f.pc.leg ≠ .settled) (hpc : pc.leg ≠ .over)
    (hdeadline : g.respondDeadline = f.respondDeadline) : (g.await pc effects).1.Tidy s where
  unlisted hover := absurd hover hpc
  aborted hover := absurd hover hpc
  deadline _ := hdeadline.trans (h.deadline hleg)

/-- The `finally` block aborts the controller and takes it off the list. -/
theorem tidy_finish (hdeadline : g.respondDeadline = false) : (g.finish pc effects).1.Tidy s where
  unlisted _ := rfl
  aborted _ := by
    refine .inl ?_
    show (g.releaseLease.1.aborted <|> some abortError).isSome = true
    cases g.releaseLease.1.aborted <;> rfl
  deadline _ := by
    show g.releaseLease.1.respondDeadline = false
    rw [releaseLease_respondDeadline, hdeadline]

/-- The `finally` block of a run that waits for no respond finds no timer. -/
theorem Tidy.finish (h : f.Tidy s) (hleg : f.pc.leg ≠ .settled) : (f.finish pc effects).1.Tidy s :=
  tidy_finish (h.deadline hleg)

/-- Past a `throwIfAborted`, the same two ways. -/
theorem Tidy.proceed {before : List Effect} (h : f.Tidy s) (hleg : f.pc.leg ≠ .settled)
    (hpc : pc.leg ≠ .over) : (f.proceed pc before effects).1.Tidy s := by
  unfold Frame.proceed
  split
  · exact h.finish hleg
  · exact h.await hleg hpc rfl

/-- A build that failed goes through the `finally` block. -/
theorem Tidy.buildFailed {job balance : Nat} {path : String} {e : JsError} (h : f.Tidy s)
    (hleg : f.pc.leg ≠ .settled) : (resumeLeased.buildFailed job path f balance e).1.Tidy s := by
  unfold resumeLeased.buildFailed
  split
  · exact h.finish hleg
  · exact h.finish hleg

end Tidy

/-- From `leasing` on. -/
theorem resumeLeased_tidy {s : Setup} {view : RunView} {job : Nat} {path : String} {f : Frame}
    {reply : Reply} {next : Frame × List Effect} (h : f.Tidy s)
    (hresume : f.resumeLeased s view job path f.pc reply = some next) : next.1.Tidy s := by
  generalize hpc : f.pc = pc at hresume
  have hleg : f.pc.leg = pc.leg := by rw [hpc]
  cases resumeLeased_stretch hresume
  -- the preflight
  case poor => exact h.finish (by rw [hleg]; simp [Pc.leg])
  case funded => exact h.proceed (by rw [hleg]; simp [Pc.leg]) (by simp [Pc.leg])
  case balanceFailed => exact h.finish (by rw [hleg]; simp [Pc.leg])
  -- the build
  case nonceRead => exact h.await (by rw [hleg]; simp [Pc.leg]) (by simp [Pc.leg]) rfl
  case nonceFailed => exact h.buildFailed (by rw [hleg]; simp [Pc.leg])
  case unaffordable => exact h.finish (by rw [hleg]; simp [Pc.leg])
  case built => exact h.proceed (by rw [hleg]; simp [Pc.leg]) (by simp [Pc.leg])
  case estimateFailed => exact h.buildFailed (by rw [hleg]; simp [Pc.leg])
  -- the Solana send
  case instructed => exact h.await (by rw [hleg]; simp [Pc.leg]) (by simp [Pc.leg]) rfl
  case uninstructed => exact h.finish (by rw [hleg]; simp [Pc.leg])
  case requested => exact h.await (by rw [hleg]; simp [Pc.leg]) (by simp [Pc.leg]) rfl
  case unrequested => exact h.finish (by rw [hleg]; simp [Pc.leg])
  -- the signature
  case signed => exact h.await (by rw [hleg]; simp [Pc.leg]) (by simp [Pc.leg]) rfl
  case unsigned => exact h.finish (by rw [hleg]; simp [Pc.leg])
  case unattached => exact h.finish (by rw [hleg]; simp [Pc.leg])
  case mismatched => exact h.finish (by rw [hleg]; simp [Pc.leg])
  case verified => exact h.await (by rw [hleg]; simp [Pc.leg]) (by simp [Pc.leg]) rfl
  -- broadcast and confirmation
  case broadcast => exact h.await (by rw [hleg]; simp [Pc.leg]) (by simp [Pc.leg]) rfl
  case broadcastFailed => exact h.finish (by rw [hleg]; simp [Pc.leg])
  case confirmed released effects hrel =>
    -- the early release sets the timer
    exact ⟨by simp [Pc.leg], by simp [Pc.leg], by simp [Pc.leg]⟩
  case reverted => exact h.finish (by rw [hleg]; simp [Pc.leg])
  case unconfirmed => exact h.finish (by rw [hleg]; simp [Pc.leg])
  -- the respond wait clears it
  case unexpected => exact tidy_finish rfl
  case responded => exact tidy_finish rfl
  case unresponded => exact tidy_finish rfl

/-- Whatever an `await` is answered, the controller and the timer are looked after. -/
theorem resume_tidy {s : Setup} {view : RunView} {job : Nat} {f : Frame} {reply : Reply}
    {next : Frame × List Effect} (h : f.Tidy s)
    (hresume : f.resume s view job reply = some next) : next.1.Tidy s := by
  cases resume_stretch hresume
  case recorded e hpc =>
    have hover : f.pc.leg = .over := by rw [hpc]; rfl
    exact ⟨fun _ => h.unlisted hover, fun _ => h.aborted hover,
      fun _ => h.deadline (by rw [hover]; simp)⟩
  case works hresume => exact resumeLeased_tidy h hresume
  all_goals
    have hearly : f.pc.leg ≠ .settled := by rw [‹f.pc = _›]; simp [Pc.leg]
    first
      | exact h.finish hearly
      | exact h.await hearly (by simp [Pc.leg]) rfl
      | exact h.proceed hearly (by simp [Pc.leg])

/-- The account of a job, whether or not it has been accepted yet. -/
def Balanced (s : Setup) (frame : Option Frame) (calls : List Effect) (replies : List Reply) :
    Prop :=
  match frame with
  | some f => f.Accounts calls replies ∧ f.Tidy s
  | none => calls = [] ∧ replies = []

/-- A job that has just been accepted is tidy, and its account is empty. -/
theorem Fresh.balanced {s : Setup} {f : Frame} (h : f.Fresh s) : Balanced s (some f) [] [] := by
  cases h with
  | running solana derivation hcontext heq =>
    rw [heq]
    exact ⟨⟨rfl, rfl, rfl, rfl⟩, by simp [Pc.leg], by simp [Pc.leg], by simp⟩
  | rejected error hcontext heq =>
    rw [heq]
    refine ⟨rfl, by simp, fun _ => .inr ⟨error, hcontext⟩, by simp⟩

end Frame

namespace World

/-! ## The run of a job -/

/-- Every job is tidy and its account balanced; a job not yet accepted has done nothing. -/
def CleanupInv (s : Setup) (as : List Action) (w : World) : Prop :=
  ∀ job, Frame.Balanced s w.frames[job]? (w.callsOf job) (repliesTo job as)

/-- Before anything has happened no job has been accepted. -/
theorem cleanupInv_new (s : Setup) (now : Millis) : CleanupInv s [] (World.new s now) :=
  fun _ => ⟨rfl, rfl⟩

/-- A step resumes one job at most, and leaves the accounts of the others. -/
theorem cleanupInv_step {s : Setup} {as : List Action} {w w' : World} {a : Action}
    (hleases : w.LeaseInv) (h : CleanupInv s as w) (hstep : step s w a = some w') :
    CleanupInv s (as ++ [a]) w' := by
  intro job
  have hjob := h job
  cases step_job hstep job with
  | absent hbefore hafter hother hcalls =>
    rw [hafter, hcalls, repliesTo_concat_of_ne hother]
    rwa [hbefore] at hjob
  | accepted f mode hstart hid hafter hfresh hcalls =>
    -- a job just accepted has called nothing and been answered nothing
    have hnew : w.frames[job]? = none := List.getElem?_eq_none (by omega)
    rw [hnew] at hjob
    obtain ⟨hnone, hreplies⟩ := hjob
    rw [hafter, hcalls, repliesTo_concat_of_ne (by simp [hstart, Action.resumed]), hnone,
      hreplies]
    exact hfresh.balanced
  | resumed reply f f' effects hresumed hbefore hafter hresume _ hcalls =>
    have hwf := hleases.wf f (List.mem_of_getElem? hbefore)
    rw [hbefore] at hjob
    rw [hafter, hcalls, hresumed, repliesTo_concat_resume]
    exact ⟨Frame.resume_accounts hwf hjob.1 hresume, Frame.resume_tidy hjob.2 hresume⟩
  | stays f hbefore hafter hother _ hcalls =>
    rw [hafter, hcalls, repliesTo_concat_of_ne hother]
    rwa [hbefore] at hjob
  | deadline f hdeadline hbefore hset hafter hcalls =>
    rw [hafter, hcalls, repliesTo_concat_of_ne (by simp [hdeadline, Action.resumed])]
    rw [hbefore] at hjob
    obtain ⟨haccounts, htidy⟩ := hjob
    refine ⟨(Frame.accounts_congr (by rfl) (by rfl)).mpr haccounts, htidy.unlisted, ?_,
      fun _ => rfl⟩
    intro hover
    -- the deadline that fired is that of a job still waiting for its respond
    have hleg : f.pc.leg ≠ .settled := by
      rw [show f.pc.leg = .over from hover]
      simp
    rw [htidy.deadline hleg] at hset
    cases hset
  | aborted f habort hbefore hlisted hafter hcalls =>
    rw [hafter, hcalls, repliesTo_concat_of_ne (by simp [habort, Action.resumed])]
    rw [hbefore] at hjob
    obtain ⟨haccounts, htidy⟩ := hjob
    refine ⟨(Frame.accounts_congr (by rfl) (by rfl)).mpr haccounts, fun _ => rfl, ?_,
      htidy.deadline⟩
    intro hover
    -- a run that is over is off the list, and is not aborted
    rw [htidy.unlisted hover] at hlisted
    cases hlisted

/-- So the accounts are balanced after every executed list of actions. -/
theorem cleanupInv_exec {s : Setup} {start : Millis} {as : List Action} {w : World}
    (h : exec (step s) (World.new s start) as = some w) : CleanupInv s as w :=
  exec_invariant (I := CleanupInv s) (cleanupInv_new s start)
    (fun _ _ _ _ hexec hinv hstep =>
      cleanupInv_step (leaseInv_reachable (reachable_of_exec hexec)) hinv hstep) h

end World

/-! ## The quarantine -/

namespace Frame

section Ways

variable {f : Frame} {pc : Pc} {effects : List Effect} {path : String} {nonce : Nat}

/-- The `finally` block quarantines nothing. -/
theorem quarantine_mem_finish (h : .quarantine path nonce ∈ (f.finish pc effects).2) :
    .quarantine path nonce ∈ effects :=
  (mem_finish h).resolve_right (by simp)

/-- A build that failed has broadcast nothing, and quarantines nothing. -/
theorem quarantine_not_mem_buildFailed {job balance : Nat} {own : String} {e : JsError} :
    .quarantine path nonce ∉ (resumeLeased.buildFailed job own f balance e).2 := by
  intro hmem
  unfold resumeLeased.buildFailed at hmem
  split at hmem
  · exact absurd (quarantine_mem_finish hmem) (by simp)
  · exact absurd (quarantine_mem_finish hmem) (by simp)

end Ways

/-- From `leasing` on. -/
theorem resumeLeased_quarantine {s : Setup} {view : RunView} {job : Nat} {own path : String}
    {f : Frame} {pc : Pc} {reply : Reply} {next : Frame × List Effect} {nonce : Nat}
    (h : f.resumeLeased s view job own pc reply = some next)
    (hmem : .quarantine path nonce ∈ next.2) : path = own ∧ pc.nonce? = some nonce := by
  cases resumeLeased_stretch h
  case funded => exact absurd (mem_proceed hmem) (by simp)
  case built => exact absurd (mem_proceed hmem) (by simp)
  case nonceFailed => exact absurd hmem quarantine_not_mem_buildFailed
  case estimateFailed => exact absurd hmem quarantine_not_mem_buildFailed
  -- the two exits that give up on the transaction
  case broadcastFailed built _ _ =>
    have hcall := quarantine_mem_finish hmem
    simp only [List.mem_cons, Effect.quarantine.injEq, reduceCtorEq, List.not_mem_nil,
      or_false] at hcall
    exact ⟨hcall.1, congrArg some hcall.2.symm⟩
  case unconfirmed built _ _ =>
    have hcall := quarantine_mem_finish hmem
    simp only [List.mem_cons, Effect.quarantine.injEq, reduceCtorEq, List.not_mem_nil,
      or_false] at hcall
    exact ⟨hcall.1, congrArg some hcall.2.symm⟩
  case confirmed released effects hrel =>
    have hcall : .quarantine path nonce ∈ f.releaseLease.2 := by
      rw [hrel]
      simpa using hmem
    exact absurd (mem_releaseLease hcall) (by simp)
  -- the other ways on suspend, return or throw
  all_goals first
    | exact absurd (quarantine_mem_finish hmem) (by simp)
    | exact absurd hmem (by simp [await])

/-- A job quarantines its own worker, with the nonce of the transaction it gives up on, and
    then releases it. -/
theorem resume_quarantine {s : Setup} {view : RunView} {job : Nat} {f : Frame} {reply : Reply}
    {next : Frame × List Effect} {path : String} {nonce : Nat} (hwf : f.Wf)
    (h : f.resume s view job reply = some next) (hmem : .quarantine path nonce ∈ next.2) :
    f.worker = some path ∧ f.pc.nonce? = some nonce ∧ ∃ reason error,
      next.2 = [.quarantine path nonce, .fail job reason error, .release path] := by
  cases resume_marks hwf h with
  | unmarked hmarks _ => exact absurd rfl (hmarks.no_quarantine _ hmem path nonce)
  | reconciled _ _ _ _ _ _ hcalls => simp [hcalls] at hmem
  | refreshed _ _ _ _ _ hcalls => simp [hcalls] at hmem
  | tooPoor _ _ _ _ _ _ _ hcalls => simp [hcalls] at hmem
  | gaveUp own read reason error hchain hworker _ hcalls =>
    have hnext : next.2 = [.quarantine own read, .fail job reason error, .release own] := hcalls
    have hsame : path = own ∧ nonce = read := by simpa [hnext] using hmem
    obtain ⟨rfl, rfl⟩ := hsame
    refine ⟨hworker, ?_, reason, error, hnext⟩
    -- on the chain, the code that resumes is the one from `leasing` on
    have hleased : f.resumeLeased s view job path f.pc reply = some next := by
      rw [← h]
      cases hpc : f.pc <;> simp [hpc, Pc.onChain] at hchain <;> simp [resume, hpc, hworker]
    exact (resumeLeased_quarantine hleased hmem).2

end Frame

namespace WorkerPool

/-- Releasing a worker that has just been quarantined hands it to nobody. -/
theorem quarantine_release {pool : WorkerPool} (hnd : pool.paths.Nodup) {path : String}
    (hpath : path ∈ pool.paths) (nonce : Nat) (now : Millis) :
    ((pool.quarantine path nonce).release path now).Quarantined path ∧
      ∃ new, ((pool.quarantine path nonce).release path now).settled = pool.settled ++ new ∧
        ∀ call, (call, .resolved path) ∉ new := by
  have hheld := quarantined_quarantine hnd hpath nonce
  have hleases := LeasesOnly.release (pool.quarantine path nonce) path now
  have hnd' : (pool.quarantine path nonce).paths.Nodup := by
    have hpaths : (pool.quarantine path nonce).paths = pool.paths := by
      refine List.map_modifyFirst (fun w => ?_) pool.workers
      rfl
    rw [hpaths]
    exact hnd
  refine ⟨(Quarantined.congr hleases.standing).mpr hheld, ?_⟩
  obtain ⟨new, hnew, hfit⟩ := hleases.settled
  -- releasing hands out what fits, and a quarantined address does not
  exact ⟨new, hnew, fun call hmem => hheld.not_fit hnd' (hfit call path hmem)⟩

end WorkerPool

namespace World

/-- The step in which a job quarantines: its own worker, with the nonce of its transaction. The
    quarantine is in place before the release, which hands the worker to nobody. -/
structure HeldBack (w w' : World) (job : Nat) (path : String) (nonce : Nat) : Prop where
  own : ∃ f : Frame, w.frames[job]? = some f ∧ f.worker = some path ∧ f.pc.nonce? = some nonce
  first : ∃ reason error, w'.callsOf job = w.callsOf job ++
    [.quarantine path nonce, .fail job reason error, .release path]
  quarantined : w'.pool.Quarantined path
  handedToNobody : ∃ new, w'.pool.settled = w.pool.settled ++ new ∧
    ∀ call, (call, .resolved path) ∉ new

/-- A quarantine stands first among the calls of its stretch, with the record's failure and the
    release after it: so the release finds the address quarantined, and grants it to nobody. -/
theorem quarantine_step {s : Setup} {start : Millis} {w w' : World} {a : Action} {job nonce : Nat}
    {path : String} (hreach : Reachable (step s) (World.new s start) w)
    (hstep : step s w a = some w')
    (hmem : .quarantine path nonce ∈ (w'.callsOf job).drop (w.callsOf job).length) :
    HeldBack w w' job path nonce := by
  have hleases := leaseInv_reachable hreach
  have haddresses := addressInv_reachable hreach
  have hsame : w'.callsOf job ≠ w.callsOf job := by
    intro hcalls
    rw [hcalls, List.drop_length] at hmem
    cases hmem
  cases step_job hstep job with
  | resumed reply f f' effects _ hbefore _ hresume hpool hcalls =>
    have hwf := hleases.wf f (List.mem_of_getElem? hbefore)
    rw [hcalls, List.drop_left] at hmem
    obtain ⟨hworker, hnonce, reason, error, heffects⟩ := Frame.resume_quarantine hwf hresume hmem
    have heffects : effects = _ := heffects
    rw [heffects] at hpool hcalls
    -- the job still holds the worker, which is one of the pool's
    have hphase : f.phase = .held ∧ f.pc ≠ .ended := by
      unfold Frame.phase
      cases hpc : f.pc <;> simp [hpc, Pc.nonce?, Pc.stage, Stage.phase] at hnonce ⊢
    have hholds : w.Holds job path := by
      simp only [Frame.Wf, hphase.1] at hwf
      exact ⟨f, hbefore, hphase.2, .inl ⟨hworker, hwf.2⟩⟩
    have hpath : path ∈ w.pool.paths := by
      obtain ⟨worker, hown, rfl, _⟩ := hleases.worker_busy hholds
      exact List.mem_map_of_mem hown
    have hrelease := WorkerPool.quarantine_release haddresses.paths_nodup hpath nonce w.now
    have hpool : w'.pool = (w.pool.quarantine path nonce).release path w.now := hpool
    rw [← hpool] at hrelease
    exact ⟨⟨f, hbefore, hworker, hnonce⟩, ⟨reason, error, hcalls⟩, hrelease.1, hrelease.2⟩
  | absent _ _ _ hcalls => exact absurd hcalls hsame
  | accepted _ _ _ _ _ _ hcalls => exact absurd hcalls hsame
  | stays _ _ _ _ _ hcalls => exact absurd hcalls hsame
  | deadline _ _ _ _ _ hcalls => exact absurd hcalls hsame
  | aborted _ _ _ _ _ hcalls => exact absurd hcalls hsame

/-! ## Every ending of every run -/

/-- How `run()` leaves things when it ends, after the actions `as`. -/
structure CleanedUp (s : Setup) (start : Millis) (as : List Action) (w : World) (job : Nat)
    (f : Frame) : Prop where
  /-- `worker` is the address the job was granted, if it ever was. -/
  taken : ∀ path, f.worker = some path ↔ (job, .resolved path) ∈ w.pool.settled
  /-- Released once if it was taken, and else not at all. -/
  released : (w.callsOf job).filter (fun e => e.movesLease && e.cleansUp) =
    f.worker.toList.map Effect.release
  unlisted : f.listed = false
  aborted : f.aborted.isSome = true ∨ ∃ error, s.solana = .error error
  deadline : f.respondDeadline = false
  /-- Quarantined, once, before the release, with the nonce read for the transaction, exactly
      when the transaction was broadcast and no receipt obtained. -/
  quarantined_iff : (∃ path nonce, f.worker = some path ∧
      noncesRead (repliesTo job as) = [nonce] ∧
      cleanups (w.callsOf job) = [.quarantine path nonce, .release path]) ↔
    sent (w.callsOf job) = true ∧ receiptObtained (repliesTo job as) = false
  nothing_else : ¬ (sent (w.callsOf job) = true ∧ receiptObtained (repliesTo job as) = false) →
    ∀ path nonce, .quarantine path nonce ∉ w.callsOf job
  /-- At each step of the run in which the job quarantined. -/
  heldBack : ∀ pre a post w₁ w₂, as = pre ++ a :: post →
    exec (step s) (World.new s start) pre = some w₁ → step s w₁ a = some w₂ →
    ∀ path nonce, .quarantine path nonce ∈ (w₂.callsOf job).drop (w₁.callsOf job).length →
      HeldBack w₁ w₂ job path nonce

/-- What a closed account says of the calls. -/
private theorem closed_calls {f : Frame} {calls : List Effect} {replies : List Reply}
    (h : f.Closed calls replies) :
    calls.filter (fun e => e.movesLease && e.cleansUp) = f.worker.toList.map Effect.release ∧
    ((∃ path nonce, f.worker = some path ∧ noncesRead replies = [nonce] ∧
      cleanups calls = [.quarantine path nonce, .release path]) ↔
        sent calls = true ∧ receiptObtained replies = false) ∧
    (¬ (sent calls = true ∧ receiptObtained replies = false) →
      ∀ path nonce, .quarantine path nonce ∉ calls) := by
  have hfilter : calls.filter (fun e => e.movesLease && e.cleansUp) =
      (cleanups calls).filter Effect.movesLease := by
    rw [cleanups, List.filter_filter]
  have hmem : ∀ path nonce, .quarantine path nonce ∈ calls →
      .quarantine path nonce ∈ cleanups calls :=
    fun path nonce hcall => List.mem_filter.mpr ⟨hcall, rfl⟩
  unfold Frame.Closed at h
  split at h
  · -- the run gave up on its transaction: a quarantine, then the release
    rename_i hgaveUp
    obtain ⟨path, nonce, hworker, hnonce, hclean⟩ := h
    refine ⟨?_, iff_of_true ⟨path, nonce, hworker, hnonce, hclean⟩ hgaveUp, fun hno => ?_⟩
    · rw [hfilter, hclean, hworker]
      rfl
    · exact absurd hgaveUp hno
  · -- otherwise only releases
    rename_i hrest
    have hreleases : ∀ path nonce, .quarantine path nonce ∉ cleanups calls := by
      intro path nonce hcall
      rw [h] at hcall
      simp at hcall
    refine ⟨?_, iff_of_false ?_ hrest, fun _ path nonce hcall => ?_⟩
    · rw [hfilter, h]
      cases f.worker <;> rfl
    · rintro ⟨path, nonce, _, _, hclean⟩
      apply hreleases path nonce
      rw [hclean]
      exact List.mem_cons_self
    · exact hreleases path nonce (hmem path nonce hcall)

/-- Whatever the `await`s were answered and wherever shutdown aborted, a run that has ended
    has cleaned up. -/
theorem run_cleans_up {s : Setup} {start : Millis} {as : List Action} {w : World} {job : Nat}
    {f : Frame} (hexec : exec (step s) (World.new s start) as = some w)
    (hf : w.frames[job]? = some f) (hended : f.pc = .ended ∨ ∃ error, f.pc = .rejected error) :
    CleanedUp s start as w job f := by
  have hover : f.pc.leg = .over := by
    rcases hended with hpc | ⟨error, hpc⟩ <;> rw [hpc] <;> rfl
  have hpast : f.pc ≠ .leasing := by
    rcases hended with hpc | ⟨error, hpc⟩ <;> simp [hpc]
  have hbalanced := cleanupInv_exec hexec job
  rw [hf] at hbalanced
  obtain ⟨haccounts, htidy⟩ := hbalanced
  rw [Frame.accounts_over hover] at haccounts
  obtain ⟨hreleased, hiff, hnothing⟩ := closed_calls haccounts
  refine ⟨taken_reachable (reachable_of_exec hexec) job f hf hpast, hreleased,
    htidy.unlisted hover, htidy.aborted hover, htidy.deadline ?_, hiff, hnothing, ?_⟩
  · -- a run that is over waits for no respond
    rw [hover]
    simp
  · intro pre a post w₁ w₂ _ hpre hstep path nonce hmem
    exact quarantine_step (reachable_of_exec hpre) hstep hmem

/-- Two jobs and one address: the first broadcasts and never learns the outcome, while the
    second is queued for the address. -/
def givenUpRun : List Action :=
  contendedRun ++
    [.resume 0 (.balance 10000000000000000), .resume 0 (.nonceAndFees 7 ⟨1, 1⟩),
      .resume 0 (.gas 21000), .resume 0 .instruction, .resume 0 (.solanaTx "sig"),
      .resume 0 (.rsv ⟨"r", "s", 0⟩), .resume 0 .resume,
      .resume 0 (.throw { message := "timeout" })]

/-- The state that run ends in. -/
def givenUpWorld : World :=
  (exec (step sampleSetup) (World.new sampleSetup 0) givenUpRun).getD (World.new sampleSetup 0)

/-- The first job has quarantined the address and released it; the second is still queued. -/
theorem givenUpRun_cleans_up : ∃ f : Frame, givenUpWorld.frames[0]? = some f ∧
    CleanedUp sampleSetup 0 givenUpRun givenUpWorld 0 f ∧
    cleanups (givenUpWorld.callsOf 0) = [.quarantine "load-0" 7, .release "load-0"] ∧
    givenUpWorld.pool.waiters = [1] := by
  have hexec : exec (step sampleSetup) (World.new sampleSetup 0) givenUpRun = some givenUpWorld :=
    exec_getD (by decide +kernel) _
  exact ⟨_, rfl, run_cleans_up hexec rfl (.inl (by decide +kernel)), by decide +kernel,
    by decide +kernel⟩

end World

end ContractPinger
