import ContractPinger.Spec.Promises

/-!
# One resumption, the next lines

From the moment a job has an address, what it is told and what it starts follow one script:
the round trip of one transaction, built for that address, requested, signed, broadcast, mined
and responded to. `RoundTrip.script` is the script, `RoundTrip.Genuine` says what its lines are
said for, and `RoundTrip.report` what a record reports of them.

## Key results

- `resumeLeased_continues`: a resumption says the next lines of the script, or breaks off
- `OnTrip.resume` / `AtHome.resume`: and its record keeps up with them
-/

namespace ContractPinger

/-- What passes between a job and the MPC, the chains and their nodes. -/
inductive Exchange
  | told (reply : Reply)
  | began (op : Operation)
deriving DecidableEq, Repr

/-- What an `await` is told by somebody else: its return alone is nobody's, and a throw tells
    nothing. -/
def Reply.told : Reply → List Exchange
  | .resume => []
  | .throw _ => []
  | reply => [.told reply]

/-- The operation a call starts. -/
def Effect.operation? : Effect → Option Operation
  | .began _ op => some op
  | _ => none

def operations (effects : List Effect) : List Operation := effects.filterMap Effect.operation?

@[simp] theorem operations_append (effects rest : List Effect) :
    operations (effects ++ rest) = operations effects ++ operations rest :=
  List.filterMap_append

@[simp] theorem operations_releaseLease (f : Frame) : operations f.releaseLease.2 = [] := by
  unfold Frame.releaseLease
  split <;> rfl

/-- The exchanges of one resumption of a job: none before it has an address. -/
def Frame.exchanges (f : Frame) (reply : Reply) (effects : List Effect) : List Exchange :=
  if f.worker.isSome then reply.told ++ (operations effects).map Exchange.began else []

/-- For whom a transaction is built. -/
structure Lessee where
  mode : TxMode
  solana : SolanaContext
  path : String

def Lessee.address (libs : Libraries) (who : Lessee) : Hex :=
  (deriveWorker libs who.solana who.path).address

/-- A round trip, by what a job is told on it and the bytes it broadcasts. -/
structure RoundTrip where
  balance : Nat
  nonce : Nat
  fees : Fees
  gasEstimate : Nat
  solanaTx : String
  signature : RSVSignature
  serialized : Hex
  ethTxHash : Hex
  success : Bool
  output : SerializedOutput

/-- A round trip that has not begun. -/
def RoundTrip.blank : RoundTrip :=
  { balance := 0
    nonce := 0
    fees := ⟨0, 0⟩
    gasEstimate := 0
    solanaTx := ""
    signature := ⟨"", "", 0⟩
    serialized := ""
    ethTxHash := ""
    success := false
    output := .text "" }

/-- What a record reports of a round trip. -/
structure Report where
  path : Option String := none
  derivedAddress : Option Hex := none
  requestId : Option String := none
  nonce : Option Nat := none
  solanaTx : Option String := none
  ethTxHash : Option Hex := none
  serializedOutput : Option String := none
deriving DecidableEq, Repr

def JobRecord.report (r : JobRecord) : Report :=
  { path := r.path
    derivedAddress := r.derivedAddress
    requestId := r.requestId
    nonce := r.nonce
    solanaTx := r.solanaTx
    ethTxHash := r.ethTxHash
    serializedOutput := r.serializedOutput }

namespace RoundTrip

variable (s : Setup) (who : Lessee) (rt : RoundTrip)

/-- The script, line by line. -/
def script : List Exchange :=
  [.told (.balance rt.balance),
   .began .buildTransaction,
   .told (.nonceAndFees rt.nonce rt.fees),
   .told (.gas rt.gasEstimate),
   .told .instruction,
   .began .sendAndConfirm,
   .told (.solanaTx rt.solanaTx),
   .told (.rsv rt.signature),
   .began (.sendRawTransaction rt.serialized),
   .told (.txHash rt.ethTxHash),
   .told (.receipt rt.success)] ++
  -- a reverted transaction is not responded to
  if rt.success then [.told (.respond rt.output)] else []

/-- The transaction of the round trip. -/
def built : BuiltTransaction :=
  assembleTransaction s.libs s.environment who.mode (who.address s.libs)
    (s.env.bidirectional.erc20Address.getD s.environment.erc20) rt.nonce rt.fees rt.gasEstimate

/-- The id its signature is requested under. -/
def requestId : String :=
  s.libs.getRequestIdBidirectional
    { sender := who.solana.requester
      payload := (rt.built s who).rlpEncoded
      caip2Id := ethereumCaip2Id
      keyVersion
      path := who.path
      algo := "ECDSA"
      dest := "ethereum"
      params := "" }

/-- The address covers the gas of the transaction. -/
def affordable : Bool := decide ((rt.built s who).gasCostWei ≤ rt.balance)

/-- The first `n` lines are said with reason. -/
structure Genuine (n : Nat) : Prop where
  preflight : 1 < n → s.env.bidirectional.minBalanceWei ≤ rt.balance
  affords : 4 < n → rt.affordable s who = true
  /-- What is broadcast is this transaction with this signature, and the signature is the
      address's. -/
  checked : 8 < n → ∃ signed,
    attachSignature s.libs (rt.built s who).unsigned rt.signature = .ok signed ∧
    assertDerivedSender s.libs (who.address s.libs) signed.recoveredFrom = .ok () ∧
    signed.serialized = rt.serialized

/-- What the record reports after the first `n` lines, with a request made or not. -/
def reportWith (requested : Bool) (n : Nat) : Report :=
  { path := some who.path
    derivedAddress := some (who.address s.libs)
    requestId := if requested then some (rt.requestId s who) else none
    nonce := if requested then some rt.nonce else none
    solanaTx := if 6 < n then some rt.solanaTx else none
    ethTxHash := if 9 < n then some rt.ethTxHash else none
    serializedOutput := if 11 < n then some (toHexString rt.output) else none }

/-- A request is made for a transaction that is built and affordable. -/
def report (n : Nat) : Report :=
  rt.reportWith s who (decide (3 < n) && rt.affordable s who) n

/-- The record after the first `n` lines. It is `responded` after the last, if the output is
    the one expected. -/
structure Reported (n : Nat) (r : JobRecord) : Prop where
  mode : r.mode = who.mode
  report : r.report = rt.report s who n
  responded : r.state = .responded ↔
    11 < n ∧ toHexString rt.output = expectedSerializedOutput

end RoundTrip

/-- The locals of `run()` at an `await`, and how many lines have been said. -/
def Pc.Recalls (s : Setup) (who : Lessee) (rt : RoundTrip) (n : Nat) : Pc → Prop
  | .readingBalance => n = 0
  | .readingNonce balance => n = 2 ∧ balance = rt.balance
  | .estimatingGas balance nonce fees =>
    n = 3 ∧ balance = rt.balance ∧ nonce = rt.nonce ∧ fees = rt.fees
  | .buildingInstruction built =>
    n = 4 ∧ built = rt.built s who ∧ rt.affordable s who = true
  | .sendingSolana built => n = 6 ∧ built = rt.built s who
  | .awaitingSignature built => n = 7 ∧ built = rt.built s who
  | .attachingSignature built signature =>
    n = 8 ∧ built = rt.built s who ∧ signature = rt.signature
  | .broadcasting _ _ => n = 9
  | .confirming _ _ => n = 10
  | .responding => n = 11 ∧ rt.success = true
  | .rejected _ => n ≤ 11
  | .ended => True
  | _ => False

namespace Frame

/-- A job with an address is on a round trip of its own, and every record it may have held for
    it reports that. -/
structure OnTrip (s : Setup) (f : Frame) (said : List Exchange) (held : JobRecord → Prop)
    (who : Lessee) (rt : RoundTrip) (n : Nat) : Prop where
  mode : f.mode = who.mode
  worker : f.worker = some who.path
  solana : s.solana = .ok who.solana
  requester : f.requester = who.solana.requester
  said : said = rt.script.take n
  genuine : rt.Genuine s who n
  recalls : f.pc.Recalls s who rt n
  reported : ∀ r, held r → rt.Reported s who n r

/-- A job without an address has said nothing. -/
structure AtHome (s : Setup) (f : Frame) (said : List Exchange) (held : JobRecord → Prop) :
    Prop where
  worker : f.worker = none
  said : said = []
  requester : f.pc.stage.running = true →
    ∃ solana, s.solana = .ok solana ∧ f.requester = solana.requester
  reported : ∀ r, held r → r.mode = f.mode ∧ r.report = {} ∧ r.state ≠ .responded

/-- Every job is at home or on a round trip. -/
def Travels (s : Setup) (f : Frame) (said : List Exchange) (held : JobRecord → Prop) : Prop :=
  f.AtHome s said held ∨ ∃ who rt n, f.OnTrip s said held who rt n

end Frame

/-! ## One resumption -/

/-- The patches of a stretch of code, whatever record they are for. -/
def patchesOf (now : Millis) (effects : List Effect) : List JobPatch :=
  (patches now effects).map Prod.snd

@[simp] theorem patchesOf_releaseLease (now : Millis) (effects : List Effect) (f : Frame) :
    patchesOf now (effects ++ f.releaseLease.2) = patchesOf now effects := by
  rw [patchesOf, patches_append, patches_releaseLease, List.append_nil]
  rfl

/-- What a patch makes of a report. -/
def Report.apply (report : Report) (p : JobPatch) : Report :=
  { path := p.path <|> report.path
    derivedAddress := p.derivedAddress <|> report.derivedAddress
    requestId := p.requestId <|> report.requestId
    nonce := p.nonce <|> report.nonce
    solanaTx := p.solanaTx <|> report.solanaTx
    ethTxHash := p.ethTxHash <|> report.ethTxHash
    serializedOutput := p.serializedOutput <|> report.serializedOutput }

/-- The patches of a stretch change the report one by one. -/
theorem JobRecord.report_foldl (ps : List JobPatch) (r : JobRecord) :
    (ps.foldl JobRecord.apply r).report = ps.foldl Report.apply r.report := by
  induction ps generalizing r with
  | nil => rfl
  | cons p rest ih => exact ih (r.apply p)

/-- No patch changes the mode. -/
theorem JobRecord.mode_foldl (ps : List JobPatch) (r : JobRecord) :
    (ps.foldl JobRecord.apply r).mode = r.mode := by
  induction ps generalizing r with
  | nil => rfl
  | cons p rest ih => exact ih (r.apply p)

/-- Patches that do not say `responded` do not make a record `responded`. -/
theorem JobRecord.unresponded_foldl {ps : List JobPatch}
    (h : ps.all (fun p => p.state != some .responded) = true) {r : JobRecord}
    (hr : r.state ≠ .responded) : (ps.foldl JobRecord.apply r).state ≠ .responded := by
  induction ps generalizing r with
  | nil => exact hr
  | cons p rest ih =>
    rw [List.all_cons, Bool.and_eq_true] at h
    refine ih h.2 ?_
    show p.state.getD r.state ≠ .responded
    cases hstate : p.state with
    | none => exact hr
    | some state =>
      rintro rfl
      simp [hstate] at h

namespace RoundTrip

variable {s : Setup} {who : Lessee} {now : Millis} {rt rt' : RoundTrip} {n n' : Nat}
  {reply : Reply}

/-- The first line needs no reason. -/
theorem Genuine.early (hn : n ≤ 1) : rt.Genuine s who n where
  preflight h := by omega
  affords h := by omega
  checked h := by omega

/-- Up to the prices, only the preflight is asked for. -/
theorem Genuine.priced (hpreflight : s.env.bidirectional.minBalanceWei ≤ rt.balance)
    (hn : n ≤ 4) : rt.Genuine s who n where
  preflight _ := hpreflight
  affords h := by omega
  checked h := by omega

/-- Up to the signature, also that the address covers the gas. -/
theorem Genuine.afforded (hpreflight : s.env.bidirectional.minBalanceWei ≤ rt.balance)
    (haffords : rt.affordable s who = true) (hn : n ≤ 8) : rt.Genuine s who n where
  preflight _ := hpreflight
  affords _ := haffords
  checked h := by omega

/-- A round trip that was requested could be afforded. -/
theorem report_requested (haffords : rt.affordable s who = true) (hn : 3 < n) :
    rt.report s who n = rt.reportWith s who true n := by
  rw [RoundTrip.report, haffords, Bool.and_true, decide_eq_true hn]

/-- Once the transaction is broadcast, nothing needs a reason any more. -/
theorem Genuine.broadcast (h : rt.Genuine s who n) (hn : 8 < n)
    (hsame : (rt'.balance, rt'.nonce, rt'.fees, rt'.gasEstimate, rt'.signature, rt'.serialized) =
      (rt.balance, rt.nonce, rt.fees, rt.gasEstimate, rt.signature, rt.serialized)) :
    rt'.Genuine s who n' := by
  simp only [Prod.mk.injEq] at hsame
  obtain ⟨hbalance, hnonce, hfees, hgas, hsignature, hserialized⟩ := hsame
  -- the transaction built is of the values that stay the same
  have hbuilt : rt'.built s who = rt.built s who := by
    rw [RoundTrip.built, hnonce, hfees, hgas]
    rfl
  refine ⟨fun _ => ?_, fun _ => ?_, fun _ => ?_⟩
  · rw [hbalance]
    exact h.preflight (by omega)
  · rw [RoundTrip.affordable, hbuilt, hbalance]
    exact h.affords (by omega)
  · rw [hbuilt, hsignature, hserialized]
    exact h.checked hn

/-- Before the last line no record is `responded`. -/
theorem Reported.unresponded {r : JobRecord} (h : rt.Reported s who n r) (hn : n ≤ 11) :
    r.state ≠ .responded := by
  intro hstate
  have hlast := (h.responded.mp hstate).1
  omega

/-- The record keeps up with the lines before the last. -/
theorem Reported.patch {ps : List JobPatch} {r : JobRecord} (h : rt.Reported s who n r)
    (hn : n ≤ 11) (hn' : n' ≤ 11)
    (hreport : ps.foldl Report.apply (rt.report s who n) = rt'.report s who n')
    (hstate : ps.all (fun p => p.state != some .responded) = true) :
    rt'.Reported s who n' (ps.foldl JobRecord.apply r) := by
  refine ⟨?_, ?_, ?_⟩
  · rw [JobRecord.mode_foldl, h.mode]
  · rw [JobRecord.report_foldl, h.report, hreport]
  · refine iff_of_false (JobRecord.unresponded_foldl hstate (h.unresponded hn)) ?_
    omega

/-- The record keeps up with the lines after the request. -/
theorem Reported.later {ps : List JobPatch} {r : JobRecord} (h : rt.Reported s who n r)
    (haffords : rt.affordable s who = true) (haffords' : rt'.affordable s who = true)
    (hn : 3 < n ∧ n ≤ 11) (hn' : 3 < n' ∧ n' ≤ 11)
    (hreport : ps.foldl Report.apply (rt.reportWith s who true n) = rt'.reportWith s who true n')
    (hstate : ps.all (fun p => p.state != some .responded) = true) :
    rt'.Reported s who n' (ps.foldl JobRecord.apply r) := by
  refine h.patch hn.2 hn'.2 ?_ hstate
  rw [report_requested haffords hn.1, report_requested haffords' hn'.1, hreport]

/-- And with the last. -/
theorem Reported.last {ps : List JobPatch} {r : JobRecord} {output : SerializedOutput}
    (h : rt.Reported s who 11 r) (haffords : rt.affordable s who = true)
    (hreport : ps.foldl Report.apply (rt.reportWith s who true 11) =
      RoundTrip.reportWith s who { rt with output } true 12)
    (hstate : (ps.foldl JobRecord.apply r).state = .responded ↔
      11 < 12 ∧ toHexString output = expectedSerializedOutput) :
    RoundTrip.Reported s who { rt with output } 12 (ps.foldl JobRecord.apply r) := by
  have hafter : RoundTrip.affordable s who { rt with output } = true := haffords
  refine ⟨?_, ?_, hstate⟩
  · rw [JobRecord.mode_foldl, h.mode]
  · rw [JobRecord.report_foldl, h.report, report_requested haffords (by decide),
      report_requested hafter (by decide), hreport]

/-- Only a transaction that went through is responded to. -/
theorem said_last (hsuccess : rt.success = true) (output : SerializedOutput) :
    rt.script.take 11 ++ [.told (.respond output)] =
      (RoundTrip.script { rt with output }).take 12 := by
  simp [script, hsuccess]

/-- The resumption says the next lines, of this round trip or of one that starts like it. -/
structure Continues (s : Setup) (who : Lessee) (now : Millis) (rt : RoundTrip) (n : Nat)
    (reply : Reply) (next : Frame × List Effect) (rt' : RoundTrip) (n' : Nat) : Prop where
  said : rt.script.take n ++ (reply.told ++ (operations next.2).map Exchange.began) =
    rt'.script.take n'
  genuine : rt'.Genuine s who n'
  recalls : next.1.pc.Recalls s who rt' n'
  reported : ∀ r, rt.Reported s who n r →
    rt'.Reported s who n' ((patchesOf now next.2).foldl JobRecord.apply r)

section Ways

variable {g : Frame} {pc : Pc} {effects : List Effect}

/-- Going on to an `await` says the next lines, and reports what they bring. -/
theorem continues_await (hsaid : rt.script.take n ++ (reply.told ++
      (operations effects).map Exchange.began) = rt'.script.take n')
    (hgenuine : rt'.Genuine s who n') (hrecalls : pc.Recalls s who rt' n')
    (hreported : ∀ r, rt.Reported s who n r →
      rt'.Reported s who n' ((patchesOf now effects).foldl JobRecord.apply r)) :
    rt.Continues s who now n reply (g.await pc effects) rt' n' :=
  ⟨hsaid, hgenuine, hrecalls, hreported⟩

/-- The `finally` block says nothing. -/
theorem continues_finish (hsaid : rt.script.take n ++ (reply.told ++
      (operations effects).map Exchange.began) = rt'.script.take n')
    (hgenuine : rt'.Genuine s who n') (hrecalls : pc.Recalls s who rt' n')
    (hreported : ∀ r, rt.Reported s who n r →
      rt'.Reported s who n' ((patchesOf now effects).foldl JobRecord.apply r)) :
    rt.Continues s who now n reply (g.finish pc effects) rt' n' := by
  refine ⟨?_, hgenuine, hrecalls, fun r hr => ?_⟩
  · show _ ++ (_ ++ (operations (effects ++ g.releaseLease.2)).map Exchange.began) = _
    rw [operations_append, operations_releaseLease, List.append_nil, hsaid]
  · show rt'.Reported s who n' ((patchesOf now (effects ++ g.releaseLease.2)).foldl _ r)
    rw [patchesOf_releaseLease]
    exact hreported r hr

/-- What throws tells nothing. -/
theorem continues_throws {error : JobError} (htold : reply.told = [])
    (hgenuine : rt.Genuine s who n) (hn : n ≤ 11) :
    rt.Continues s who now n reply (g.throws error []) rt n :=
  continues_finish (by rw [htold]; exact List.append_nil _) hgenuine hn fun _ hr => hr

/-- The record of a job that fails without being told more reports what it did. -/
theorem continues_fails {reason : FailureReason} {error : JobError} (htold : reply.told = [])
    (hquiet : operations effects = [])
    (hpatch : patchesOf now effects = [JobStore.failPatch reason error now])
    (hgenuine : rt.Genuine s who n) (hn : n ≤ 11) :
    rt.Continues s who now n reply (g.returns effects) rt n := by
  refine continues_finish ?_ hgenuine trivial fun r hr => ?_
  · rw [htold, hquiet]
    exact List.append_nil _
  · rw [hpatch]
    exact hr.patch hn hn rfl rfl

/-- A build that failed says nothing more. -/
theorem continues_buildFailed {job balance : Nat} {path : String} {e : JsError}
    (hgenuine : rt.Genuine s who n) (hn : n ≤ 11) :
    rt.Continues s who now n (.throw e) (Frame.resumeLeased.buildFailed job path g balance e)
      rt n := by
  unfold Frame.resumeLeased.buildFailed
  split
  · exact continues_fails rfl rfl rfl hgenuine hn
  · exact continues_throws rfl hgenuine hn

end Ways

end RoundTrip

namespace Frame

open RoundTrip

variable {s : Setup} {view : RunView} {job : Nat} {f : Frame} {reply : Reply}
  {next : Frame × List Effect}

/-- Releasing the lease leaves the job's mode and requester. -/
theorem releaseLease_locals (g : Frame) :
    g.releaseLease.1.mode = g.mode ∧ g.releaseLease.1.requester = g.requester := by
  unfold releaseLease
  split <;> exact ⟨rfl, rfl⟩

/-- So does the `finally` block. -/
theorem finish_locals (g : Frame) (pc : Pc) (effects : List Effect) :
    (g.finish pc effects).1.mode = g.mode ∧ (g.finish pc effects).1.requester = g.requester :=
  releaseLease_locals g

/-- So does a `throwIfAborted`. -/
theorem proceed_locals (g : Frame) (pc : Pc) (before after : List Effect) :
    (g.proceed pc before after).1.mode = g.mode ∧
      (g.proceed pc before after).1.requester = g.requester := by
  unfold proceed
  split
  · exact finish_locals g _ _
  · exact ⟨rfl, rfl⟩

/-- From `leasing` on. -/
theorem resumeLeased_locals {path : String} {pc : Pc}
    (h : f.resumeLeased s view job path pc reply = some next) :
    next.1.mode = f.mode ∧ next.1.requester = f.requester := by
  cases resumeLeased_stretch h
  case funded => exact proceed_locals f _ _ _
  case built => exact proceed_locals f _ _ _
  case confirmed released effects hrel =>
    have hkept := f.releaseLease_locals
    rwa [hrel] at hkept
  case nonceFailed | estimateFailed =>
    unfold resumeLeased.buildFailed
    split
    · exact finish_locals f _ _
    · exact finish_locals f _ _
  -- the other ways on suspend, return or throw
  all_goals first
    | exact finish_locals _ _ _
    | exact ⟨rfl, rfl⟩

/-- A job keeps its mode and its requester. -/
theorem resume_locals (h : f.resume s view job reply = some next) :
    next.1.mode = f.mode ∧ next.1.requester = f.requester := by
  cases resume_stretch h
  case asked => exact proceed_locals f _ _ _
  case works h => exact resumeLeased_locals h
  all_goals first
    | exact finish_locals _ _ _
    | exact ⟨rfl, rfl⟩

/-- What the answers are assembled to is the transaction of a round trip with these answers. -/
theorem built_eq {who : Lessee} (hmode : f.mode = who.mode)
    (haddress : view.pool.address who.path = who.address s.libs) (rt : RoundTrip)
    (estimate : Nat) :
    f.assembled s view who.path rt.nonce rt.fees estimate =
      RoundTrip.built s who { rt with gasEstimate := estimate } := by
  rw [assembled, hmode, haddress]
  rfl

/-- From an address on, a job says the next lines or breaks off. -/
theorem resumeLeased_continues {who : Lessee} {rt : RoundTrip} {n : Nat}
    (hmode : f.mode = who.mode) (hrequester : f.requester = who.solana.requester)
    (haddress : view.pool.address who.path = who.address s.libs)
    (hgenuine : rt.Genuine s who n) (hrecalls : f.pc.Recalls s who rt n)
    (h : f.resumeLeased s view job who.path f.pc reply = some next) :
    ∃ rt' n', rt.Continues s who view.now n reply next rt' n' := by
  generalize hpc : f.pc = pc at h hrecalls
  cases resumeLeased_stretch h
  -- the preflight
  case poor balance hless =>
    obtain rfl := hrecalls
    refine ⟨{ rt with balance }, 1,
      continues_finish rfl (.early (by decide)) trivial fun r hr => ?_⟩
    exact hr.patch (by decide) (by decide) rfl rfl
  case funded balance henough =>
    obtain rfl := hrecalls
    unfold proceed
    split
    · refine ⟨{ rt with balance }, 1, continues_finish rfl (.early (by decide))
        (Nat.le_of_ble_eq_true rfl) ?_⟩
      exact fun r hr => hr.patch (by decide) (by decide) rfl rfl
    · refine ⟨{ rt with balance }, 2, continues_await rfl ?_ ⟨rfl, rfl⟩ fun r hr => ?_⟩
      · exact .priced (Nat.le_of_not_lt henough) (by decide)
      · exact hr.patch (by decide) (by decide) rfl rfl
  case balanceFailed =>
    obtain rfl := hrecalls
    exact ⟨rt, 0, continues_throws rfl hgenuine (by decide)⟩
  -- the build
  case nonceRead balance nonce fees =>
    obtain ⟨rfl, rfl⟩ := hrecalls
    refine ⟨{ rt with nonce, fees }, 3, continues_await rfl ?_ ⟨rfl, rfl, rfl, rfl⟩ fun r hr => ?_⟩
    · exact .priced (hgenuine.preflight (by decide)) (by decide)
    · exact hr.patch (by decide) (by decide) rfl rfl
  case nonceFailed =>
    obtain ⟨rfl, -⟩ := hrecalls
    exact ⟨rt, 2, continues_buildFailed hgenuine (by decide)⟩
  case unaffordable balance nonce fees estimate hless =>
    obtain ⟨rfl, rfl, rfl, rfl⟩ := hrecalls
    have hbuilt := built_eq hmode haddress rt estimate
    have hpoor : RoundTrip.affordable s who { rt with gasEstimate := estimate } = false := by
      rw [RoundTrip.affordable, ← hbuilt]
      exact decide_eq_false (Nat.not_le_of_lt hless)
    refine ⟨{ rt with gasEstimate := estimate }, 4, continues_finish rfl ?_ trivial fun r hr => ?_⟩
    · exact .priced (hgenuine.preflight (by decide)) (by decide)
    · refine hr.patch (by decide) (by decide) ?_ rfl
      rw [RoundTrip.report, RoundTrip.report, hpoor]
      rfl
  case built balance nonce fees estimate henough =>
    obtain ⟨rfl, rfl, rfl, rfl⟩ := hrecalls
    have hbuilt := built_eq hmode haddress rt estimate
    have haffords : RoundTrip.affordable s who { rt with gasEstimate := estimate } = true := by
      rw [RoundTrip.affordable, ← hbuilt]
      exact decide_eq_true (Nat.le_of_not_lt henough)
    have hid : f.requestIdOf s who.path (f.assembled s view who.path rt.nonce rt.fees estimate) =
        RoundTrip.requestId s who { rt with gasEstimate := estimate } := by
      rw [RoundTrip.requestId, ← hbuilt, requestIdOf, hrequester]
    have hgenuine' : RoundTrip.Genuine s who { rt with gasEstimate := estimate } 4 :=
      .priced (hgenuine.preflight (by decide)) (by decide)
    have hreported : ∀ r, rt.Reported s who 3 r →
        RoundTrip.Reported s who { rt with gasEstimate := estimate } 4
          ([{ requestId := some (f.requestIdOf s who.path
                (f.assembled s view who.path rt.nonce rt.fees estimate))
              nonce := some (f.assembled s view who.path rt.nonce rt.fees estimate).nonce }].foldl
            JobRecord.apply r) := by
      intro r hr
      refine hr.patch (by decide) (by decide) ?_ rfl
      rw [RoundTrip.report, RoundTrip.report, haffords, hid]
      rfl
    unfold proceed
    split
    · exact ⟨_, 4, continues_finish rfl hgenuine' (Nat.le_of_ble_eq_true rfl) hreported⟩
    · exact ⟨_, 4, continues_await rfl hgenuine' ⟨rfl, hbuilt, haffords⟩ hreported⟩
  case estimateFailed =>
    obtain ⟨rfl, -⟩ := hrecalls
    exact ⟨rt, 3, continues_buildFailed hgenuine (by decide)⟩
  -- the Solana send
  case instructed built =>
    obtain ⟨rfl, rfl, haffords⟩ := hrecalls
    refine ⟨rt, 6, continues_await rfl ?_ ⟨rfl, rfl⟩ fun r hr => ?_⟩
    · exact .afforded (hgenuine.preflight (by decide)) haffords (by decide)
    · exact hr.later haffords haffords (by decide) (by decide) rfl rfl
  case uninstructed =>
    obtain ⟨rfl, -⟩ := hrecalls
    exact ⟨rt, 4, continues_throws rfl hgenuine (by decide)⟩
  case requested built signature =>
    obtain ⟨rfl, rfl⟩ := hrecalls
    have haffords := hgenuine.affords (by decide)
    refine ⟨{ rt with solanaTx := signature }, 7, continues_await rfl ?_ ⟨rfl, rfl⟩ fun r hr => ?_⟩
    · exact .afforded (hgenuine.preflight (by decide)) haffords (by decide)
    · exact hr.later haffords haffords (by decide) (by decide) rfl rfl
  case unrequested =>
    obtain ⟨rfl, -⟩ := hrecalls
    exact ⟨rt, 6, continues_throws rfl hgenuine (by decide)⟩
  -- the signature
  case signed built signature =>
    obtain ⟨rfl, rfl⟩ := hrecalls
    have haffords := hgenuine.affords (by decide)
    refine ⟨{ rt with signature }, 8, continues_await rfl ?_ ⟨rfl, rfl, rfl⟩ fun r hr => ?_⟩
    · exact .afforded (hgenuine.preflight (by decide)) haffords (by decide)
    · exact hr.later haffords haffords (by decide) (by decide) rfl rfl
  case unsigned =>
    obtain ⟨rfl, -⟩ := hrecalls
    exact ⟨rt, 7, continues_fails rfl rfl rfl hgenuine (by decide)⟩
  case unattached =>
    obtain ⟨rfl, -⟩ := hrecalls
    exact ⟨rt, 8, continues_throws rfl hgenuine (by decide)⟩
  case mismatched =>
    obtain ⟨rfl, -⟩ := hrecalls
    exact ⟨rt, 8, continues_fails rfl rfl rfl hgenuine (by decide)⟩
  case verified built signature signed hattach hassert =>
    obtain ⟨rfl, rfl, rfl⟩ := hrecalls
    rw [haddress] at hassert
    have haffords := hgenuine.affords (by decide)
    refine ⟨{ rt with serialized := signed.serialized }, 9,
      continues_await rfl ⟨?_, ?_, ?_⟩ rfl fun r hr => ?_⟩
    · exact fun _ => hgenuine.preflight (by decide)
    · exact fun _ => haffords
    · exact fun _ => ⟨signed, hattach, hassert, rfl⟩
    · exact hr.later haffords haffords (by decide) (by decide) rfl rfl
  -- broadcast and confirmation
  case broadcast built serialized hash =>
    obtain rfl := hrecalls
    have haffords := hgenuine.affords (by decide)
    refine ⟨{ rt with ethTxHash := hash }, 10, continues_await rfl ?_ rfl fun r hr => ?_⟩
    · exact hgenuine.broadcast (by decide) rfl
    · exact hr.later haffords haffords (by decide) (by decide) rfl rfl
  case broadcastFailed =>
    obtain rfl := hrecalls
    exact ⟨rt, 9, continues_fails rfl rfl rfl hgenuine (by decide)⟩
  case confirmed released effects hrel =>
    obtain rfl := hrecalls
    have haffords := hgenuine.affords (by decide)
    have heffects : effects = f.releaseLease.2 := by rw [hrel]
    let confirm := Effect.update job
      { state := some .confirmed, timings := { confirmedAt := some view.now } }
    refine ⟨{ rt with success := true }, 11, ?_, ?_, ⟨rfl, rfl⟩, fun r hr => ?_⟩
    · show _ ++ (_ ++ (operations ([confirm] ++ effects)).map Exchange.began) = _
      rw [heffects, operations_append, operations_releaseLease]
      rfl
    · exact hgenuine.broadcast (by decide) rfl
    · show RoundTrip.Reported s who _ 11 ((patchesOf view.now ([confirm] ++ effects)).foldl _ r)
      rw [heffects, patchesOf_releaseLease]
      exact hr.later haffords haffords (by decide) (by decide) rfl rfl
  case reverted =>
    obtain rfl := hrecalls
    have haffords := hgenuine.affords (by decide)
    refine ⟨{ rt with success := false }, 11, continues_finish rfl ?_ trivial fun r hr => ?_⟩
    · exact hgenuine.broadcast (by decide) rfl
    · exact hr.later haffords haffords (by decide) (by decide) rfl rfl
  case unconfirmed =>
    obtain rfl := hrecalls
    exact ⟨rt, 10, continues_fails rfl rfl rfl hgenuine (by decide)⟩
  -- the respond
  case unexpected output hunexpected =>
    obtain ⟨rfl, hsuccess⟩ := hrecalls
    have haffords := hgenuine.affords (by decide)
    refine ⟨{ rt with output }, 12, continues_finish ?_ ?_ trivial fun r hr => ?_⟩
    · exact said_last hsuccess output
    · exact hgenuine.broadcast (by decide) rfl
    · refine hr.last haffords rfl (iff_of_false ?_ fun h => hunexpected h.2)
      simp [patchesOf, patches, Effect.patch?, JobRecord.apply, JobStore.failPatch]
  case responded output hexpected =>
    obtain ⟨rfl, hsuccess⟩ := hrecalls
    have haffords := hgenuine.affords (by decide)
    refine ⟨{ rt with output }, 12, continues_finish ?_ ?_ trivial fun r hr => ?_⟩
    · exact said_last hsuccess output
    · exact hgenuine.broadcast (by decide) rfl
    · exact hr.last haffords rfl (iff_of_true rfl ⟨by decide, not_not.mp hexpected⟩)
  case unresponded =>
    obtain ⟨rfl, -⟩ := hrecalls
    exact ⟨rt, 11, continues_fails rfl rfl rfl hgenuine (by decide)⟩

/-- A job on a round trip goes on with it. -/
theorem OnTrip.resume {said : List Exchange} {held held' : JobRecord → Prop} {who : Lessee}
    {rt : RoundTrip} {n : Nat} (htrip : f.OnTrip s said held who rt n)
    (haddress : view.pool.address who.path = who.address s.libs)
    (h : f.resume s view job reply = some next)
    (hheld : ∀ r', held' r' → ∃ r, held r ∧
      r' = (patchesOf view.now next.2).foldl JobRecord.apply r) :
    ∃ rt' n', next.1.OnTrip s (said ++ f.exchanges reply next.2) held' who rt' n' := by
  -- whatever continues the round trip keeps the job on it
  have hgo : ∀ rt' n', rt.Continues s who view.now n reply next rt' n' →
      next.1.OnTrip s (said ++ f.exchanges reply next.2) held' who rt' n' := by
    intro rt' n' hcontinues
    obtain ⟨hmode, hrequester⟩ := resume_locals h
    refine ⟨hmode.trans htrip.mode, ?_, htrip.solana, hrequester.trans htrip.requester, ?_,
      hcontinues.genuine, hcontinues.recalls, ?_⟩
    · rcases resume_worker h with ⟨hworker, _⟩ | ⟨path, hpc, _, _⟩
      · exact hworker.trans htrip.worker
      · have hrecalls := htrip.recalls
        rw [hpc] at hrecalls
        cases hrecalls
    · rw [exchanges, htrip.worker, htrip.said]
      exact hcontinues.said
    · intro r' hr'
      obtain ⟨r, hr, rfl⟩ := hheld r' hr'
      exact hcontinues.reported r (htrip.reported r hr)
  have hrecalls := htrip.recalls
  cases resume_stretch h
  -- the `catch` of `start`
  case recorded hpc =>
    rw [hpc] at hrecalls
    refine ⟨rt, n, hgo rt n ⟨List.append_nil _, htrip.genuine, trivial, fun r hr => ?_⟩⟩
    exact hr.patch hrecalls hrecalls rfl rfl
  case works path hworker h =>
    have hpath : path = who.path := Option.some.inj (hworker.symm.trans htrip.worker)
    subst hpath
    obtain ⟨rt', n', hcontinues⟩ := resumeLeased_continues htrip.mode htrip.requester haddress
      htrip.genuine htrip.recalls h
    exact ⟨rt', n', hgo rt' n' hcontinues⟩
  -- before it had an address
  all_goals
    rw [‹f.pc = _›] at hrecalls
    cases hrecalls

/-- A throw patches nothing. -/
theorem throws_silent (now : Millis) (error : JobError) :
    patchesOf now (f.throws error []).2 = [] :=
  patchesOf_releaseLease now [] f

/-- Asking for an address patches nothing. -/
theorem proceed_silent (now : Millis) (pc : Pc) (call : Nat) :
    patchesOf now (f.proceed pc [] [.acquireWithin call]).2 = [] := by
  unfold proceed
  split
  · exact throws_silent now .shutdown
  · rfl

/-- A job without an address says nothing until it has one. -/
theorem AtHome.resume {said : List Exchange} {held held' : JobRecord → Prop}
    (hhome : f.AtHome s said held)
    (haddress : ∀ path, view.pool.settlement job = some (.resolved path) →
      ∃ solana, s.solana = .ok solana ∧
        view.pool.address path = (deriveWorker s.libs solana path).address)
    (h : f.resume s view job reply = some next)
    (hheld : ∀ r', held' r' → ∃ r, held r ∧
      r' = (patchesOf view.now next.2).foldl JobRecord.apply r) :
    next.1.Travels s (said ++ f.exchanges reply next.2) held' := by
  have hsaid : said ++ f.exchanges reply next.2 = [] := by
    rw [exchanges, hhome.worker, hhome.said]
    rfl
  obtain ⟨hmode, hrequester⟩ := resume_locals h
  rw [hsaid]
  -- where it stays at home, its record reports nothing still
  have hstay : next.1.worker = none →
      (next.1.pc.stage.running = true → f.pc.stage.running = true) →
      (patchesOf view.now next.2).foldl Report.apply {} = {} →
      (patchesOf view.now next.2).all (fun p => p.state != some .responded) = true →
      next.1.Travels s [] held' := by
    intro hworker hrunning hreport hstate
    refine .inl ⟨hworker, rfl, fun hrun => ?_, fun r' hr' => ?_⟩
    · rw [hrequester]
      exact hhome.requester (hrunning hrun)
    · obtain ⟨r, hr, rfl⟩ := hheld r' hr'
      obtain ⟨hrmode, hrreport, hrstate⟩ := hhome.reported r hr
      rw [JobRecord.mode_foldl, JobRecord.report_foldl, hmode, hrreport]
      exact ⟨hrmode, hreport, JobRecord.unresponded_foldl hstate hrstate⟩
  have hworker := hhome.worker
  cases resume_stretch h
  -- its promise has resolved
  case leased hpc path hset =>
    obtain ⟨solana, hsolana, hpath⟩ := haddress path hset
    obtain ⟨solana', hsolana', hrequest⟩ := hhome.requester (by rw [hpc]; rfl)
    obtain rfl : solana' = solana := Except.ok.inj (hsolana'.symm.trans hsolana)
    let who : Lessee := { mode := f.mode, solana := solana', path }
    refine .inr ⟨who, .blank, 0, rfl, rfl, hsolana, hrequest, rfl, .early (by decide), rfl, ?_⟩
    intro r' hr'
    obtain ⟨r, hr, rfl⟩ := hheld r' hr'
    obtain ⟨hrmode, hrreport, hrstate⟩ := hhome.reported r hr
    refine ⟨hrmode, ?_, iff_of_false (JobRecord.unresponded_foldl rfl hrstate) (by simp)⟩
    rw [JobRecord.report_foldl, hrreport]
    show Report.mk (some path) (some (view.pool.address path)) _ _ _ _ _ = _
    rw [hpath]
    rfl
  case recorded => exact hstay hworker (fun hrun => by cases hrun) rfl rfl
  case works path hsome h => cases hworker.symm.trans hsome
  -- before `acquireWithin` it may find that it has been aborted
  case asked hpc =>
    refine hstay ((proceed_worker _ _ _ _).trans hworker) (fun _ => by rw [hpc]; rfl) ?_ ?_
    · rw [proceed_silent]
      rfl
    · rw [proceed_silent]
      rfl
  -- the other ways on suspend or throw
  all_goals first
    | exact hstay hworker (fun _ => by rw [‹f.pc = _›]; rfl) rfl rfl
    | refine hstay ((finish_worker _ _ _).trans hworker) (fun hrun => by cases hrun) ?_ ?_ <;>
        rw [throws_silent] <;> rfl

/-- What is no part of a round trip may change on it. -/
theorem Travels.congr {said : List Exchange} {held : JobRecord → Prop} {g : Frame}
    (h : f.Travels s said held) (hmode : g.mode = f.mode) (hworker : g.worker = f.worker)
    (hrequester : g.requester = f.requester) (hpc : g.pc = f.pc) : g.Travels s said held := by
  rcases h with hhome | ⟨who, rt, n, htrip⟩
  · refine .inl ⟨hworker.trans hhome.worker, hhome.said, ?_, ?_⟩
    · rw [hpc, hrequester]
      exact hhome.requester
    · rw [hmode]
      exact hhome.reported
  · refine .inr ⟨who, rt, n, hmode.trans htrip.mode, hworker.trans htrip.worker, htrip.solana,
      hrequester.trans htrip.requester, htrip.said, htrip.genuine, ?_, htrip.reported⟩
    rw [hpc]
    exact htrip.recalls

/-- Fewer records are accounted for as well. -/
theorem Travels.mono {said : List Exchange} {held held' : JobRecord → Prop}
    (h : f.Travels s said held) (hheld : ∀ r, held' r → held r) : f.Travels s said held' := by
  rcases h with hhome | ⟨who, rt, n, htrip⟩
  · exact .inl { hhome with reported := fun r hr => hhome.reported r (hheld r hr) }
  · exact .inr ⟨who, rt, n, { htrip with reported := fun r hr => htrip.reported r (hheld r hr) }⟩

/-- A job that has just been accepted is at home. -/
theorem Fresh.travels {held : JobRecord → Prop} (h : f.Fresh s)
    (hheld : ∀ r, held r → r.mode = f.mode ∧ r.report = {} ∧ r.state ≠ .responded) :
    f.Travels s [] held := by
  refine .inl ⟨h.worker, rfl, fun hrun => ?_, hheld⟩
  cases h with
  | running solana _ hcontext heq => exact ⟨solana, hcontext, by rw [heq]⟩
  | rejected error _ heq =>
    rw [heq] at hrun
    cases hrun

/-- A job without an address starts nothing. -/
theorem operations_home (hworker : f.worker = none) (h : f.resume s view job reply = some next) :
    operations next.2 = [] := by
  cases resume_stretch h
  case asked =>
    unfold proceed
    split
    · exact operations_releaseLease f
    · rfl
  case works path hsome h => cases hworker.symm.trans hsome
  all_goals first
    | rfl
    | exact operations_releaseLease f

end Frame

end ContractPinger
