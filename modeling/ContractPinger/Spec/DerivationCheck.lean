import ContractPinger.Spec.PoolSteps

/-!
# What the derivation check guards

`attachSignature` computes two things from one signature: the bytes that are broadcast, which
signet.js reassembles, and the sender, which is recovered over the bytes the MPC was asked to
sign. The check before the broadcast looks at the second and says nothing of the first. How
a serialized transaction splits into what was signed and the signature is a parameter here.

## Key results

- `resume_sends`: a job broadcasts in one place, after the check
- `broadcast_guarded_iff`: the check guards what is broadcast if and only if signet.js has put a
  signature of the MPC's on the bytes that were signed
- `altered_field_is_broadcast`: a reassembly that alters a field passes the check
-/

namespace ContractPinger

open Machine

/-- The signature of a serialized transaction. -/
structure TxSignature where
  r : Hex
  s : Hex
  yParity : Nat
deriving DecidableEq, Repr

/-- A serialized transaction taken apart: the bytes its signature is over, and the signature. -/
structure SignedPayload where
  payload : List UInt8
  signature : TxSignature
deriving DecidableEq, Repr

/-- The bytes that are signed, in hex. -/
def SignedPayload.hex (signed : SignedPayload) : Hex := toHexString (.bytes signed.payload)

/-- The signature `attachSignature` recovers from. -/
def RSVSignature.attached (signature : RSVSignature) : TxSignature :=
  { r := withHexPrefix (normalizeSignature signature).r
    s := withHexPrefix (normalizeSignature signature).s
    yParity := (normalizeSignature signature).v - 27 }

namespace Libraries

variable (libs : Libraries)

/-- What `recoverAddress` answers for a signature over a payload. -/
def senderOf (payload : Hex) (signature : TxSignature) : Except JsError Hex :=
  libs.recoverAddress (libs.keccak256 payload) signature.r signature.s signature.yParity

/-- The signature over the payload recovers to the address, both checksummed. -/
def RecoversTo (address payload : Hex) (signature : TxSignature) : Prop :=
  ∃ recovered checksummed, libs.senderOf payload signature = .ok recovered ∧
    libs.getAddress address = .ok checksummed ∧ libs.getAddress recovered = .ok checksummed

/-- The sender of a serialized transaction is the address. -/
def SentFrom (parse : Hex → Option SignedPayload) (address serialized : Hex) : Prop :=
  ∃ signed, parse serialized = some signed ∧ libs.RecoversTo address signed.hex signed.signature

/-- ECDSA recovery over different signing bytes yields a different address. -/
def RecoveryBinds : Prop :=
  ∀ address payload payload' signature,
    libs.RecoversTo address (toHexString (.bytes payload)) signature →
    libs.RecoversTo address (toHexString (.bytes payload')) signature → payload = payload'

/-- The signature is of somebody else: it recovers over the payload, but not to the address. -/
def Mismatches (address payload : Hex) (signature : TxSignature) : Prop :=
  (∃ recovered, libs.senderOf payload signature = .ok recovered) ∧
    ¬ libs.RecoversTo address payload signature

/-- The bytes carry a signature over exactly what the MPC was asked to sign. -/
def Carries (parse : Hex → Option SignedPayload) (unsigned : UnsignedTransaction)
    (serialized : Hex) : Prop :=
  ∃ signed, parse serialized = some signed ∧ signed.hex = libs.serializeTransaction unsigned

/-- The second signature over the payload is of the signer of the first. ECDSA has two for each
    payload. -/
def SameSigner (payload : Hex) (signature other : TxSignature) : Prop :=
  ∀ address, libs.RecoversTo address payload signature → libs.RecoversTo address payload other

/-- The bytes carry the MPC's signature, or another one of the same signer, over exactly what
    the MPC was asked to sign. -/
def Reassembles (parse : Hex → Option SignedPayload) (unsigned : UnsignedTransaction)
    (signature : RSVSignature) (serialized : Hex) : Prop :=
  ∃ signed, parse serialized = some signed ∧
    signed.hex = libs.serializeTransaction unsigned ∧
    libs.SameSigner signed.hex signature.attached signed.signature

variable {libs}

/-- `attachSignature` and the check succeed together exactly when signet.js assembles
    something and the signature over the unsigned bytes recovers to the address. -/
theorem attach_ok_iff {address serialized : Hex} {unsigned : UnsignedTransaction}
    {signature : RSVSignature} :
    (∃ signed, attachSignature libs unsigned signature = .ok signed ∧
        assertDerivedSender libs address signed.recoveredFrom = .ok () ∧
        signed.serialized = serialized) ↔
      libs.finalizeTransactionSigning unsigned (normalizeSignature signature) = .ok serialized ∧
        libs.RecoversTo address (libs.serializeTransaction unsigned) signature.attached := by
  have hrecover : recoverSigner libs unsigned (normalizeSignature signature) =
      libs.senderOf (libs.serializeTransaction unsigned) signature.attached := rfl
  constructor
  · rintro ⟨signed, hattach, hassert, rfl⟩
    -- `attachSignature` gets as far as the check only if both of its calls succeed
    cases hfinal : libs.finalizeTransactionSigning unsigned (normalizeSignature signature) with
    | error e => simp [attachSignature, hfinal, bind, Except.bind] at hattach
    | ok serialized =>
      cases hrec : recoverSigner libs unsigned (normalizeSignature signature) with
      | error e => simp [attachSignature, hfinal, hrec, bind, Except.bind] at hattach
      | ok recovered =>
        simp only [attachSignature, hfinal, hrec, bind, Except.bind, pure, Except.pure,
          Except.ok.injEq] at hattach
        subst hattach
        refine ⟨rfl, recovered, ?_⟩
        rw [← hrecover]
        unfold assertDerivedSender at hassert
        -- both addresses have a checksummed form, and the two agree
        split at hassert
        · rename_i e r he hr
          split at hassert
          · rename_i heq
            exact ⟨e, hrec, he, heq ▸ hr⟩
          · cases hassert
        · cases hassert
        · cases hassert
  · rintro ⟨hfinal, recovered, checksummed, hrec, haddress, hchecked⟩
    rw [← hrecover] at hrec
    refine ⟨{ serialized, recoveredFrom := recovered }, ?_, ?_, rfl⟩
    · simp [attachSignature, hfinal, hrec, bind, Except.bind, pure, Except.pure]
    · simp [assertDerivedSender, haddress, hchecked]

/-- A signature recovers to one address, up to its checksum. -/
theorem RecoversTo.sameSigner {address payload : Hex} {signature other : TxSignature}
    (h : libs.RecoversTo address payload signature)
    (hother : libs.RecoversTo address payload other) : libs.SameSigner payload signature other := by
  obtain ⟨recovered, checksummed, hrecovered, haddress, hchecked⟩ := h
  obtain ⟨recovered', checksummed', hrecovered', haddress', hchecked'⟩ := hother
  rw [haddress] at haddress'
  obtain rfl := Except.ok.inj haddress'
  rintro address' ⟨_, third, hthird, hadd, hcheck⟩
  rw [hrecovered] at hthird
  obtain rfl := Except.ok.inj hthird
  rw [hchecked] at hcheck
  obtain rfl := Except.ok.inj hcheck
  exact ⟨recovered', checksummed, hrecovered', hadd, hchecked'⟩

/-- Where the check has passed, a faithful reassembly is one that is sent from the address and
    carries what was signed. -/
theorem reassembles_iff {parse : Hex → Option SignedPayload} {address serialized : Hex}
    {unsigned : UnsignedTransaction} {signature : RSVSignature}
    (hverified : libs.RecoversTo address (libs.serializeTransaction unsigned)
      signature.attached) :
    libs.Reassembles parse unsigned signature serialized ↔
      libs.SentFrom parse address serialized ∧ libs.Carries parse unsigned serialized := by
  constructor
  · rintro ⟨signed, hparse, hhex, hsigner⟩
    rw [← hhex] at hverified
    exact ⟨⟨signed, hparse, hsigner address hverified⟩, signed, hparse, hhex⟩
  · rintro ⟨⟨signed, hparse, hsender⟩, signed', hparse', hhex⟩
    rw [hparse] at hparse'
    obtain rfl := Option.some.inj hparse'
    rw [← hhex] at hverified
    -- over the same bytes both recover, so the senders are one
    exact ⟨signed, hparse, hhex, hverified.sameSigner hsender⟩

/-- What `attachSignature` throws, or the check of what it resolves to. -/
theorem attach_cases (address : Hex) {serialized : Hex} {unsigned : UnsignedTransaction}
    {signature : RSVSignature}
    (hfinal : libs.finalizeTransactionSigning unsigned (normalizeSignature signature) =
      .ok serialized) :
    (∃ e, attachSignature libs unsigned signature = .error e ∧
        libs.senderOf (libs.serializeTransaction unsigned) signature.attached = .error e) ∨
      libs.RecoversTo address (libs.serializeTransaction unsigned) signature.attached ∨
      libs.Mismatches address (libs.serializeTransaction unsigned) signature.attached ∧
        ∃ signed e, attachSignature libs unsigned signature = .ok signed ∧
          assertDerivedSender libs address signed.recoveredFrom = .error e := by
  have hrecover : recoverSigner libs unsigned (normalizeSignature signature) =
      libs.senderOf (libs.serializeTransaction unsigned) signature.attached := rfl
  cases hsender : libs.senderOf (libs.serializeTransaction unsigned) signature.attached with
  | error e =>
    refine .inl ⟨e, ?_, rfl⟩
    simp [attachSignature, hfinal, hrecover, hsender, bind, Except.bind]
  | ok recovered =>
    have hattach : attachSignature libs unsigned signature =
        .ok { serialized, recoveredFrom := recovered } := by
      simp [attachSignature, hfinal, hrecover, hsender, bind, Except.bind, pure, Except.pure]
    cases hassert : assertDerivedSender libs address recovered with
    | ok _ => exact .inr (.inl (attach_ok_iff.mp ⟨_, hattach, hassert, rfl⟩).2)
    | error e =>
      refine .inr (.inr ⟨⟨⟨recovered, hsender⟩, fun hverified => ?_⟩, _, e, hattach, hassert⟩)
      -- the check has not passed
      obtain ⟨signed, hsigned, hpassed, _⟩ := attach_ok_iff.mpr ⟨hfinal, hverified⟩
      rw [hattach] at hsigned
      obtain rfl := Except.ok.inj hsigned
      rw [hassert] at hpassed
      cases hpassed

end Libraries

/-! ## The one broadcast -/

/-- The call is a `sendRawTransaction`. -/
def Effect.sends : Effect → Bool
  | .began _ (.sendRawTransaction _) => true
  | _ => false

/-- No call of the stretch is a `sendRawTransaction`. -/
def Sendless (effects : List Effect) : Prop := effects.all (fun e => !e.sends) = true

/-- Two such stretches make one. -/
theorem Sendless.append {before after : List Effect} (hbefore : Sendless before)
    (hafter : Sendless after) : Sendless (before ++ after) := by
  rw [Sendless, List.all_append, hbefore, hafter]
  rfl

/-- So nothing is sent in it. -/
theorem Sendless.not_mem {effects : List Effect} (h : Sendless effects) {job : Nat}
    {serialized : Hex} : .began job (.sendRawTransaction serialized) ∉ effects := by
  intro hmem
  have hno := List.all_eq_true.mp h _ hmem
  cases hno

namespace Frame

/-- Releasing a lease sends nothing. -/
theorem sendless_releaseLease (f : Frame) : Sendless f.releaseLease.2 :=
  all_releaseLease fun _ => rfl

/-- Nor does the `finally` block. -/
theorem sendless_finish {f : Frame} {pc : Pc} {effects : List Effect}
    (heffects : Sendless effects) : Sendless (f.finish pc effects).2 :=
  all_finish (fun _ => rfl) heffects

/-- Nor does a `throwIfAborted`. -/
theorem sendless_proceed (f : Frame) {pc : Pc} {before after : List Effect}
    (hbefore : Sendless before) (hafter : Sendless after) :
    Sendless (f.proceed pc before after).2 :=
  all_proceed (fun _ => rfl) hbefore hafter

/-- Nor does a build that failed. -/
theorem sendless_buildFailed (f : Frame) {job balance : Nat} {path : String} {e : JsError} :
    Sendless (resumeLeased.buildFailed job path f balance e).2 := by
  unfold resumeLeased.buildFailed
  split
  · exact sendless_finish rfl
  · exact sendless_finish rfl

/-- The calls of the one resumption that broadcasts. -/
def broadcastCalls (job : Nat) (serialized : Hex) : List Effect :=
  [.update job { state := some .verified }, .began job (.sendRawTransaction serialized)]

/-- From `leasing` on. -/
theorem resumeLeased_sends {s : Setup} {view : RunView} {job : Nat} {path : String} {f : Frame}
    {reply : Reply} {next : Frame × List Effect}
    (h : f.resumeLeased s view job path f.pc reply = some next) :
    Sendless next.2 ∨ ∃ built signature signed, reply = .resume ∧
      f.pc = .attachingSignature built signature ∧
      attachSignature s.libs built.unsigned signature = .ok signed ∧
      assertDerivedSender s.libs (view.pool.address path) signed.recoveredFrom = .ok () ∧
      next.2 = broadcastCalls job signed.serialized := by
  generalize hpc : f.pc = pc at h
  cases resumeLeased_stretch h
  -- the signature is attached and the check has passed
  case verified built signature signed hattach hassert =>
    exact .inr ⟨built, signature, signed, rfl, rfl, hattach, hassert, rfl⟩
  case funded => exact .inl (f.sendless_proceed rfl rfl)
  case built => exact .inl (f.sendless_proceed rfl rfl)
  case nonceFailed => exact .inl f.sendless_buildFailed
  case estimateFailed => exact .inl f.sendless_buildFailed
  -- the receipt of a transaction that went through: the lease is given back here
  case confirmed released effects hrel =>
    have heffects : Sendless effects := by
      have hfinally := f.sendless_releaseLease
      rwa [hrel] at hfinally
    refine .inl ?_
    show Sendless ([_] ++ effects)
    exact Sendless.append rfl heffects
  -- the other ways on suspend, return or throw
  all_goals first
    | exact .inl rfl
    | exact .inl (sendless_finish rfl)

/-- A job broadcasts once its signature is attached and checked, and nowhere else. -/
theorem resume_sends {s : Setup} {view : RunView} {job : Nat} {f : Frame} {reply : Reply}
    {next : Frame × List Effect} (h : f.resume s view job reply = some next) :
    Sendless next.2 ∨ ∃ built signature path signed, reply = .resume ∧
      f.pc = .attachingSignature built signature ∧ f.worker = some path ∧
      attachSignature s.libs built.unsigned signature = .ok signed ∧
      assertDerivedSender s.libs (view.pool.address path) signed.recoveredFrom = .ok () ∧
      next.2 = broadcastCalls job signed.serialized := by
  cases resume_stretch h
  case asked => exact .inl (f.sendless_proceed rfl rfl)
  case works h =>
    rcases resumeLeased_sends h with hnone | ⟨built, signature, signed, hreply, hpc, hrest⟩
    · exact .inl hnone
    · exact .inr ⟨built, signature, _, signed, hreply, hpc, ‹f.worker = some _›, hrest⟩
  all_goals first
    | exact .inl rfl
    | exact .inl (sendless_finish rfl)

section Attaching

variable {s : Setup} {view : RunView} {job : Nat} {f : Frame} {built : BuiltTransaction}
  {signature : RSVSignature} {path : String} {signed : SignedTransaction}

/-- With a checked signature a job does broadcast. -/
theorem resume_attached (hpc : f.pc = .attachingSignature built signature)
    (hworker : f.worker = some path)
    (hattach : attachSignature s.libs built.unsigned signature = .ok signed)
    (hassert : assertDerivedSender s.libs (view.pool.address path) signed.recoveredFrom = .ok ()) :
    f.resume s view job .resume =
      some (f.await (.broadcasting built signed.serialized)
        (broadcastCalls job signed.serialized)) := by
  refine LeasedStretch.resume ?_ hworker
  rw [hpc]
  exact .verified built signature signed hattach hassert

/-- A signature that cannot be attached ends the run. -/
theorem resume_unattached {e : JsError} (hpc : f.pc = .attachingSignature built signature)
    (hworker : f.worker = some path)
    (hattach : attachSignature s.libs built.unsigned signature = .error e) :
    f.resume s view job .resume = some (f.throws (.other e) []) := by
  refine LeasedStretch.resume ?_ hworker
  rw [hpc]
  exact .unattached built signature e hattach

/-- The signature of somebody else stops the job. -/
theorem resume_mismatched {e : JobError} (hpc : f.pc = .attachingSignature built signature)
    (hworker : f.worker = some path)
    (hattach : attachSignature s.libs built.unsigned signature = .ok signed)
    (hassert : assertDerivedSender s.libs (view.pool.address path) signed.recoveredFrom =
      .error e) :
    f.resume s view job .resume = some (f.returns [.fail job .derivationMismatch e]) := by
  refine LeasedStretch.resume ?_ hworker
  rw [hpc]
  exact .mismatched built signature signed hattach e hassert

end Attaching

end Frame

namespace World

/-- The job goes on from the MPC's signature, and signet.js assembles `serialized`. -/
structure Assembles (w : World) (s : Setup) (a : Action) (job : Nat) (built : BuiltTransaction)
    (signature : RSVSignature) (path : String) (serialized : Hex) : Prop where
  goesOn : a = .resume job .resume
  stands : ∃ f, w.frames[job]? = some f ∧ f.pc = .attachingSignature built signature ∧
    f.worker = some path
  assembled : s.libs.finalizeTransactionSigning built.unsigned (normalizeSignature signature) =
    .ok serialized

/-- And the check finds the signature to be its worker's. -/
def Attaches (w : World) (s : Setup) (a : Action) (job : Nat) (serialized : Hex) : Prop :=
  ∃ built signature path, w.Assembles s a job built signature path serialized ∧
    s.libs.RecoversTo (w.pool.address path) (s.libs.serializeTransaction built.unsigned)
      signature.attached

/-- The calls a step adds, where it resumes a job, and the job it leaves. -/
theorem resume_calls {s : Setup} {w w' : World} {job : Nat} {reply : Reply} {f : Frame}
    {next : Frame × List Effect} (hstep : step s w (.resume job reply) = some w')
    (hf : w.frames[job]? = some f) (hresume : f.resume s w.view job reply = some next) :
    w'.calls.drop w.calls.length = next.2.map (Prod.mk (.job job)) ∧
      w'.frames[job]? = some next.1 := by
  obtain ⟨f', g, effects, hf', hresume', rfl⟩ := step_resume hstep
  obtain rfl := Option.some.inj (hf.symm.trans hf')
  rw [hresume] at hresume'
  obtain rfl := Option.some.inj hresume'
  constructor
  · rw [performAll_calls]
    exact List.drop_left
  · rw [performAll_frames]
    exact List.getElem?_set_self (List.getElem?_eq_some_iff.mp hf).1

/-- The broadcasts of a step, and what leads to them. -/
theorem mem_broadcasts_iff {s : Setup} {w w' : World} {a : Action} (hleases : w.LeaseInv)
    (hstep : step s w a = some w') {job : Nat} {serialized : Hex} :
    (.job job, .began job (.sendRawTransaction serialized)) ∈ w'.calls.drop w.calls.length ↔
      w.Attaches s a job serialized := by
  -- a step that makes no call broadcasts nothing
  have hidle : a.resumed = none → w'.calls = w.calls →
      ((.job job, .began job (.sendRawTransaction serialized)) ∈ w'.calls.drop w.calls.length ↔
        w.Attaches s a job serialized) := by
    intro hidle hcalls
    rw [hcalls, List.drop_length]
    refine iff_of_false nofun ?_
    rintro ⟨_, _, _, ⟨rfl, _⟩, _⟩
    cases hidle
  cases step_pool hleases hstep with
  | same hnone _ hcalls => exact hidle hnone hcalls
  | derived hnone _ _ hcalls => exact hidle hnone hcalls
  | request request reply pc effects _ _ _ hcalls =>
    rw [hcalls, List.drop_left]
    constructor
    · intro hmem
      obtain ⟨effect, _, heq⟩ := List.mem_map.mp hmem
      -- a request's calls are not a job's
      cases congrArg Prod.fst heq
    · rintro ⟨_, _, _, ⟨hgoesOn, _⟩, _⟩
      cases hgoesOn
  | job other reply =>
    obtain ⟨f, f', effects, hf, hresume, _⟩ := step_resume hstep
    rw [(resume_calls hstep hf hresume).1]
    constructor
    · intro hmem
      obtain ⟨effect, heffect, heq⟩ := List.mem_map.mp hmem
      obtain ⟨hproc, rfl⟩ := Prod.mk.inj heq
      obtain rfl : other = job := Proc.job.inj hproc
      rcases Frame.resume_sends hresume with
        hnone | ⟨built, signature, path, signed, rfl, hpc, hworker, hattach, hassert, heffects⟩
      · exact absurd heffect (Sendless.not_mem hnone)
      · have heffects : effects = Frame.broadcastCalls other signed.serialized := heffects
        rw [heffects] at heffect
        have hsame : signed.serialized = serialized := by
          simpa [Frame.broadcastCalls, eq_comm] using heffect
        obtain ⟨hfinal, hverified⟩ := Libraries.attach_ok_iff.mp ⟨signed, hattach, hassert, hsame⟩
        exact ⟨built, signature, path, ⟨rfl, ⟨f, hf, hpc, hworker⟩, hfinal⟩, hverified⟩
    · rintro ⟨built, signature, path, ⟨heq, ⟨g, hg, hpc, hworker⟩, hfinal⟩, hverified⟩
      cases heq
      obtain rfl : g = f := Option.some.inj (hg.symm.trans hf)
      obtain ⟨signed, hattach, hassert, rfl⟩ := Libraries.attach_ok_iff.mpr ⟨hfinal, hverified⟩
      have hbroadcast : g.resume s w.view job .resume = some
          (g.await (.broadcasting built signed.serialized)
            (Frame.broadcastCalls job signed.serialized)) :=
        Frame.resume_attached hpc hworker hattach hassert
      rw [hresume] at hbroadcast
      obtain ⟨_, rfl⟩ := Prod.mk.inj (Option.some.inj hbroadcast)
      exact List.mem_map_of_mem (List.mem_cons_of_mem _ List.mem_cons_self)

/-- The step stops the job as `derivation_mismatch`, before it has broadcast anything. -/
structure StopsMismatched (w w' : World) (job : Nat) : Prop where
  ended : w'.frames[job]?.map Frame.pc = some .ended
  failed : ∃ e, (.job job, .fail job .derivationMismatch e) ∈ w'.calls.drop w.calls.length
  unsent : ∀ serialized, (.job job, .began job (.sendRawTransaction serialized)) ∉
    w'.calls.drop w.calls.length

/-- Every transaction the step broadcasts is sent from the derived address of the worker that
    its job has leased, and a reassembly that differs from what was signed is stopped. -/
structure BroadcastsGuarded (s : Setup) (parse : Hex → Option SignedPayload) (w : World)
    (a : Action) (w' : World) : Prop where
  sender : ∀ job serialized, (.job job, .began job (.sendRawTransaction serialized)) ∈
      w'.calls.drop w.calls.length →
    ∃ path solana, w.Holds job path ∧ s.solana = .ok solana ∧
      s.libs.SentFrom parse (deriveWorker s.libs solana path).address serialized
  stopped : ∀ job built signature path serialized,
    w.Assembles s a job built signature path serialized →
    ¬ s.libs.Carries parse built.unsigned serialized → w.StopsMismatched w' job

/-- What signet.js assembles is what the MPC signed, unless the signature is somebody else's. -/
def ReassemblyFaithful (s : Setup) (parse : Hex → Option SignedPayload) (w : World) (a : Action) :
    Prop :=
  ∀ job built signature path serialized, w.Assembles s a job built signature path serialized →
    ¬ s.libs.Mismatches (w.pool.address path) (s.libs.serializeTransaction built.unsigned)
      signature.attached →
    s.libs.Reassembles parse built.unsigned signature serialized

/-- The three ways on from a signature that signet.js has attached. -/
inductive AttachStep (s : Setup) (w w' : World) (job : Nat) (built : BuiltTransaction)
    (signature : RSVSignature) (path : String) : Prop
  | unattached (e : JsError)
      (unrecovered : s.libs.senderOf (s.libs.serializeTransaction built.unsigned)
        signature.attached = .error e)
      (unfailed : ¬ w.StopsMismatched w' job)
  | verified (recovers : s.libs.RecoversTo (w.pool.address path)
        (s.libs.serializeTransaction built.unsigned) signature.attached)
      (unfailed : ¬ w.StopsMismatched w' job)
  | mismatched (mismatches : s.libs.Mismatches (w.pool.address path)
        (s.libs.serializeTransaction built.unsigned) signature.attached)
      (stops : w.StopsMismatched w' job)

/-- Once signet.js has attached the signature, the job sends what it was given, or stops. -/
theorem attachStep {s : Setup} {w w' : World} {a : Action} {job : Nat} {built : BuiltTransaction}
    {signature : RSVSignature} {path : String} {serialized : Hex}
    (h : w.Assembles s a job built signature path serialized) (hstep : step s w a = some w') :
    AttachStep s w w' job built signature path := by
  obtain ⟨rfl, ⟨f, hf, hpc, hworker⟩, hfinal⟩ := h
  rcases Libraries.attach_cases (w.pool.address path) hfinal with
    ⟨e, hattach, hsender⟩ | hverified | ⟨hmismatches, signed, e, hattach, hassert⟩
  · have hcalls := resume_calls hstep hf (Frame.resume_unattached hpc hworker hattach)
    refine .unattached e hsender fun hstops => ?_
    -- the run has rejected, and nothing has been recorded yet
    have hended := hstops.ended
    rw [hcalls.2] at hended
    cases hended
  · obtain ⟨signed, hattach, hassert, _⟩ := Libraries.attach_ok_iff.mpr ⟨hfinal, hverified⟩
    have hcalls := resume_calls hstep hf (Frame.resume_attached hpc hworker hattach hassert)
    refine .verified hverified fun hstops => ?_
    have hended := hstops.ended
    rw [hcalls.2] at hended
    cases hended
  · obtain ⟨hcalls, hframe⟩ :=
      resume_calls hstep hf (Frame.resume_mismatched hpc hworker hattach hassert)
    refine .mismatched hmismatches ⟨by rw [hframe]; rfl, ⟨e, ?_⟩, fun serialized hsent => ?_⟩
    · rw [hcalls]
      exact List.mem_map_of_mem (List.mem_append_left _ (List.mem_singleton_self _))
    · rw [hcalls] at hsent
      obtain ⟨effect, heffect, heq⟩ := List.mem_map.mp hsent
      obtain ⟨_, rfl⟩ := Prod.mk.inj heq
      have hsendless : Sendless (f.returns [.fail job .derivationMismatch e]).2 :=
        Frame.sendless_finish rfl
      exact hsendless.not_mem heffect

/-- The worker of a job that attaches a signature is leased, and has its derived address. -/
theorem assembles_leased {s : Setup} {start : Millis} {w : World} {a : Action} {job : Nat}
    {built : BuiltTransaction} {signature : RSVSignature} {path : String} {serialized : Hex}
    (h : Reachable (step s) (World.new s start) w)
    (hassembles : w.Assembles s a job built signature path serialized) :
    w.Holds job path ∧ ∃ solana, s.solana = .ok solana ∧
      w.pool.address path = (deriveWorker s.libs solana path).address := by
  have hleases := leaseInv_reachable h
  obtain ⟨f, hf, hpc, hworker⟩ := hassembles.stands
  have hwf := hleases.wf f (List.mem_of_getElem? hf)
  have hphase : f.phase = .held := congrArg (fun pc => pc.stage.phase) hpc
  simp only [Frame.Wf, hphase] at hwf
  have hholds : w.Holds job path := ⟨f, hf, by simp [hpc], .inl ⟨hworker, hwf.2⟩⟩
  -- what it holds it was granted, and by then every address had been derived
  have hsettled := hleases.ledger.mem_settled ((hleases.holds_iff job path).mp hholds)
  obtain ⟨hpath, hfulfilled⟩ := grantInv_reachable h job path hsettled
  exact ⟨hholds, ((addressInv_reachable h).fulfilled hfulfilled).address hpath⟩

/-- The derivation check guards the bytes of a broadcast if and only if signet.js has put a
    signature of the MPC's on the bytes it was made for. -/
theorem broadcast_guarded_iff {s : Setup} {start : Millis} {w w' : World} {a : Action}
    (parse : Hex → Option SignedPayload) (h : Reachable (step s) (World.new s start) w)
    (hstep : step s w a = some w') :
    BroadcastsGuarded s parse w a w' ↔ ReassemblyFaithful s parse w a := by
  have hleases := leaseInv_reachable h
  constructor
  · intro hguarded job built signature path serialized hassembles hmine
    -- a job that is not stopped has been given what was signed
    have hcarries : ¬ w.StopsMismatched w' job → s.libs.Carries parse built.unsigned serialized :=
      fun hgoesOn => not_not.mp fun hdiffers =>
        hgoesOn (hguarded.stopped job built signature path serialized hassembles hdiffers)
    cases attachStep hassembles hstep with
    | unattached e hunrecovered hgoesOn =>
      obtain ⟨signed, hparse, hhex⟩ := hcarries hgoesOn
      refine ⟨signed, hparse, hhex, ?_⟩
      rintro address ⟨recovered, _, hrecovered, _⟩
      rw [hhex, hunrecovered] at hrecovered
      cases hrecovered
    | verified hverified hgoesOn =>
      refine (Libraries.reassembles_iff hverified).mpr ⟨?_, hcarries hgoesOn⟩
      obtain ⟨hholds, solana, hsolana, haddress⟩ := assembles_leased h hassembles
      obtain ⟨path', solana', hholds', hsolana', hsent⟩ := hguarded.sender job serialized
        ((mem_broadcasts_iff hleases hstep).mpr ⟨built, signature, path, hassembles, hverified⟩)
      -- a job holds one path, and a service has one context
      obtain rfl : path' = path := hleases.ledger.path_unique
        ((hleases.holds_iff job path').mp hholds') ((hleases.holds_iff job path).mp hholds)
      obtain rfl : solana' = solana := Except.ok.inj (hsolana'.symm.trans hsolana)
      rw [haddress]
      exact hsent
    | mismatched hmismatches _ => exact absurd hmismatches hmine
  · intro hfaithful
    constructor
    · intro job serialized hmem
      obtain ⟨built, signature, path, hassembles, hverified⟩ :=
        (mem_broadcasts_iff hleases hstep).mp hmem
      obtain ⟨hholds, solana, hsolana, haddress⟩ := assembles_leased h hassembles
      have hreassembles := hfaithful job built signature path serialized hassembles
        fun hmismatches => hmismatches.2 hverified
      refine ⟨path, solana, hholds, hsolana, ?_⟩
      rw [← haddress]
      exact ((Libraries.reassembles_iff hverified).mp hreassembles).1
    · intro job built signature path serialized hassembles hdiffers
      have hmine : ¬ s.libs.Mismatches (w.pool.address path)
          (s.libs.serializeTransaction built.unsigned) signature.attached →
          s.libs.Carries parse built.unsigned serialized := by
        intro hmine
        obtain ⟨signed, hparse, hhex, _⟩ :=
          hfaithful job built signature path serialized hassembles hmine
        exact ⟨signed, hparse, hhex⟩
      cases attachStep hassembles hstep with
      | unattached e hunrecovered _ =>
        refine absurd (hmine fun hmismatches => ?_) hdiffers
        obtain ⟨⟨recovered, hrecovered⟩, _⟩ := hmismatches
        rw [hunrecovered] at hrecovered
        cases hrecovered
      | verified hverified _ =>
        exact absurd (hmine fun hmismatches => hmismatches.2 hverified) hdiffers
      | mismatched _ hstops => exact hstops

/-! ## Two reassemblies -/

/-- Hexadecimal digits tell apart what they are written for. -/
theorem hexDigit_inj {m n : Nat} (hm : m < 16) (hn : n < 16) (h : hexDigit m = hexDigit n) :
    m = n := by
  have hall : ∀ m < 16, ∀ n < 16, hexDigit m = hexDigit n → m = n := by decide
  exact hall m hm n hn h

/-- The hex of bytes says which bytes they are. -/
theorem toHexString_bytes_injective :
    Function.Injective fun bytes => toHexString (.bytes bytes) := by
  intro bytes bytes' h
  have hdigits := congrArg String.toList h
  simp only [toHexString, String.toList_ofList, List.cons.injEq, true_and] at hdigits
  induction bytes generalizing bytes' with
  | nil =>
    cases bytes' with
    | nil => rfl
    | cons b rest => cases hdigits
  | cons b rest ih =>
    cases bytes' with
    | nil => cases hdigits
    | cons b' rest' =>
      simp only [List.flatMap_cons, List.cons_append, List.nil_append, List.cons.injEq] at hdigits
      -- a byte is its two digits
      obtain ⟨hhigh, hlow, hrest⟩ := hdigits
      have hb := b.toNat_lt
      have hb' := b'.toNat_lt
      have hhigh := hexDigit_inj (by omega) (by omega) hhigh
      have hlow := hexDigit_inj (by omega) (by omega) hlow
      have hsame : b = b' := UInt8.toNat_inj.mp (by omega)
      rw [hsame, ih (by simp only [toHexString, hrest]) hrest]

/-- A wire format of one byte, for the recipient. -/
def wireHex (recipient : Hex) : Hex := if recipient = "0xload-0" then "0x02" else "0x00"

/-- Who has signed a hash of it. -/
def wireSigner (hash : Hex) : Hex := if hash = "0x02" then "0xload-0" else "0xby" ++ hash

/-- An assembly that puts the signature after the recipient it is given. -/
def wireSetup (recipient : UnsignedTransaction → Hex) : Setup :=
  { sampleSetup with
    libs := { sampleSetup.libs with
      serializeTransaction := fun unsigned => wireHex unsigned.to
      recoverAddress := fun hash _ _ _ => .ok (wireSigner hash)
      finalizeTransactionSigning := fun unsigned rsv =>
        .ok (wireHex (recipient unsigned) ++ "+" ++ rsv.r ++ "+" ++ rsv.s) } }

/-- The parser of that format, on two transactions. -/
def wireParse (serialized : Hex) : Option SignedPayload :=
  if serialized = "0x02+r+s" then some ⟨[2], "0xr", "0xs", 0⟩
  else if serialized = "0x00+r+s" then some ⟨[0], "0xr", "0xs", 0⟩
  else none

/-- In the sample, who signed is read off the bytes that were signed. -/
theorem wireSetup_recoversTo {recipient : UnsignedTransaction → Hex} {address payload : Hex}
    {signature : TxSignature} :
    (wireSetup recipient).libs.RecoversTo address payload signature ↔
      wireSigner payload = address := by
  constructor
  · rintro ⟨recovered, checksummed, hrecover, haddress, hchecked⟩
    have hrecovered : wireSigner payload = recovered := Except.ok.inj hrecover
    have haddress : address = checksummed := Except.ok.inj haddress
    have hchecked : recovered = checksummed := Except.ok.inj hchecked
    rw [hrecovered, hchecked, haddress]
  · rintro rfl
    exact ⟨_, _, rfl, rfl, rfl⟩

/-- No signer signs two payloads. -/
theorem wireSigner_injective : Function.Injective wireSigner := by
  have hother : ∀ hash, "0xload-0" ≠ "0xby" ++ hash := by
    intro hash h
    have hchars := congrArg String.toList h
    simp at hchars
  intro hash hash' h
  unfold wireSigner at h
  split at h <;> split at h
  · rename_i hhash hhash'
    rw [hhash, hhash']
  · exact absurd h (hother _)
  · exact absurd h.symm (hother _)
  · simpa using h

/-- So a signature is good for one payload. -/
theorem wireSetup_recoveryBinds (recipient : UnsignedTransaction → Hex) :
    (wireSetup recipient).libs.RecoveryBinds := by
  intro address payload payload' signature h h'
  rw [wireSetup_recoversTo] at h h'
  exact toHexString_bytes_injective (wireSigner_injective (h.trans h'.symm))

/-- One job, up to the MPC's signature. -/
def signedRun : List Action :=
  [.start .ethSelfTransfer, .resumeDerivation 0 .resume, .resumeDerivation 0 .resume,
    .resume 0 .resume, .resume 0 .resume, .resume 0 .resume, .resume 0 .resume,
    .resume 0 (.balance 10000000000000000), .resume 0 (.nonceAndFees 7 ⟨1, 1⟩),
    .resume 0 (.gas 21000), .resume 0 .instruction, .resume 0 (.solanaTx "sig"),
    .resume 0 (.rsv ⟨"r", "s", 0⟩)]

/-- The state that run ends in. -/
def signedWorld (recipient : UnsignedTransaction → Hex) : World :=
  (exec (step (wireSetup recipient)) (World.new (wireSetup recipient) 0) signedRun).getD
    (World.new (wireSetup recipient) 0)

/-- The state after the signature has been attached. -/
def broadcastWorld (recipient : UnsignedTransaction → Hex) : World :=
  (step (wireSetup recipient) (signedWorld recipient) (.resume 0 .resume)).getD
    (signedWorld recipient)

/-- The signature a job is about to attach, and the recipient of its transaction. -/
def attaching (w : World) (job : Nat) : Option (Hex × RSVSignature) :=
  w.frames[job]?.bind fun f =>
    match f.pc with
    | .attachingSignature built signature => some (built.unsigned.to, signature)
    | _ => none

/-- With an assembly that keeps the recipient the transaction is sent, and guarded. -/
theorem signedRun_guarded :
    BroadcastsGuarded (wireSetup UnsignedTransaction.to) wireParse
        (signedWorld UnsignedTransaction.to) (.resume 0 .resume)
        (broadcastWorld UnsignedTransaction.to) ∧
      (.job 0, .began 0 (.sendRawTransaction "0x02+r+s")) ∈
        (broadcastWorld UnsignedTransaction.to).calls := by
  have hexec : exec (step (wireSetup UnsignedTransaction.to))
      (World.new (wireSetup UnsignedTransaction.to) 0) signedRun =
      some (signedWorld UnsignedTransaction.to) := exec_getD (by decide +kernel) _
  have hstep : step (wireSetup UnsignedTransaction.to) (signedWorld UnsignedTransaction.to)
      (.resume 0 .resume) = some (broadcastWorld UnsignedTransaction.to) := by
    decide +kernel
  refine ⟨(broadcast_guarded_iff wireParse (reachable_of_exec hexec) hstep).mpr ?_,
    by decide +kernel⟩
  intro job built signature path serialized hassembles _
  obtain ⟨hgoesOn, ⟨f, hf, hpc, _⟩, hfinal⟩ := hassembles
  obtain rfl : 0 = job := by cases hgoesOn; rfl
  have hconcrete : (signedWorld UnsignedTransaction.to).attaching 0 =
      some ("0xload-0", ⟨"r", "s", 0⟩) := by
    decide +kernel
  simp only [attaching, hf, Option.bind_some, hpc, Option.some.injEq, Prod.mk.injEq] at hconcrete
  obtain ⟨hto, rfl⟩ := hconcrete
  have hserialized : wireHex built.unsigned.to ++ "+" ++ "r" ++ "+" ++ "s" = serialized :=
    Except.ok.inj hfinal
  rw [hto] at hserialized
  refine ⟨⟨[2], "0xr", "0xs", 0⟩, ?_, ?_, ?_⟩
  · rw [← hserialized]
    decide
  · show _ = wireHex built.unsigned.to
    rw [hto]
    decide
  · -- any signature on the payload is its signer's
    intro address hrecovers
    rw [wireSetup_recoversTo] at hrecovers ⊢
    exact hrecovers

/-- A reassembly that changes the recipient is broadcast: the check does not see it, though
    recovery over what is broadcast finds another sender. -/
theorem altered_field_is_broadcast :
    (wireSetup fun _ => "0xburn").libs.RecoveryBinds ∧
      Reachable (step (wireSetup fun _ => "0xburn"))
        (World.new (wireSetup fun _ => "0xburn") 0) (signedWorld fun _ => "0xburn") ∧
      step (wireSetup fun _ => "0xburn") (signedWorld fun _ => "0xburn") (.resume 0 .resume) =
        some (broadcastWorld fun _ => "0xburn") ∧
      (.job 0, .began 0 (.sendRawTransaction "0x00+r+s")) ∈
        (broadcastWorld fun _ => "0xburn").calls ∧
      ¬ (wireSetup fun _ => "0xburn").libs.SentFrom wireParse "0xload-0" "0x00+r+s" ∧
      ¬ BroadcastsGuarded (wireSetup fun _ => "0xburn") wireParse
        (signedWorld fun _ => "0xburn") (.resume 0 .resume)
        (broadcastWorld fun _ => "0xburn") := by
  have hexec : exec (step (wireSetup fun _ => "0xburn"))
      (World.new (wireSetup fun _ => "0xburn") 0) signedRun =
      some (signedWorld fun _ => "0xburn") := exec_getD (by decide +kernel) _
  -- what was broadcast pays another recipient, and is signed by nobody the pool knows
  have hnotSent : ¬ (wireSetup fun _ => "0xburn").libs.SentFrom wireParse "0xload-0"
      "0x00+r+s" := by
    rintro ⟨signed, hparse, hrecovers⟩
    have hparsed : wireParse "0x00+r+s" = some ⟨[0], "0xr", "0xs", 0⟩ := by decide
    rw [hparsed] at hparse
    obtain rfl := Option.some.inj hparse
    rw [wireSetup_recoversTo] at hrecovers
    exact absurd hrecovers (by decide)
  refine ⟨wireSetup_recoveryBinds _, reachable_of_exec hexec, by decide +kernel,
    by decide +kernel, hnotSent, ?_⟩
  intro hguarded
  -- were the step guarded, the sender would be the address of the one lease there is
  have hbroadcast : (Proc.job 0, Effect.began 0 (.sendRawTransaction "0x00+r+s")) ∈
      (broadcastWorld fun _ => "0xburn").calls.drop
        (signedWorld fun _ => "0xburn").calls.length := by
    decide +kernel
  obtain ⟨path, solana, hholds, _, hsent⟩ := hguarded.sender 0 _ hbroadcast
  have hleases := leaseInv_reachable (reachable_of_exec hexec)
  have hsettled := hleases.ledger.mem_settled ((hleases.holds_iff 0 path).mp hholds)
  have hall : (signedWorld fun _ => "0xburn").pool.settled = [(0, .resolved "load-0")] := by
    decide +kernel
  rw [hall] at hsettled
  simp only [List.mem_singleton, Prod.mk.injEq, Settlement.resolved.injEq, true_and] at hsettled
  have haddress : (deriveWorker (wireSetup fun _ => "0xburn").libs solana path).address =
      "0x" ++ path := rfl
  rw [haddress, hsettled] at hsent
  exact hnotSent hsent

end World

end ContractPinger
