import ContractPinger.ForStd.Except
import ContractPinger.Model.FundWorkers
import ContractPinger.Spec.JobLifecycle

/-!
# What the cross-check detects

`crossCheck` compares two maps by their sizes, and by looking up in one each path of the other.
A path that is not found there is passed over, and so is one without an address. So it takes
two maps of one size for equal when their paths are different.

## Key results

- `crossCheck_passes_iff`: when the check lets the run go on
- `main_ok`: what a run that gets as far as sending is to send
- `main_crossChecked`: a run that gets as far as sending has passed the check of every network
- `crossCheck_detects_iff`: exactly when the check tells different maps apart
- `renamed_path_passes`: two pools without a path in common agree
-/

namespace ContractPinger

section Statements

variable (toLowerCase : String → String)

/-- A path and its address in lower case, as the maps of `crossCheck` hold them. -/
def DerivedWorker.entry (d : DerivedWorker) : String × String := (d.path, toLowerCase d.address)

/-- Likewise of a reported worker. -/
def ReportedWorker.entry (w : ReportedWorker) : String × String :=
  (w.path, toLowerCase (w.address.getD ""))

/-- Both sides have the same paths, at the same addresses. -/
def SameAddresses (derived : List DerivedWorker) (reported : List ReportedWorker) : Prop :=
  ∀ e, e ∈ derived.map (DerivedWorker.entry toLowerCase) ↔
    e ∈ reported.map (ReportedWorker.entry toLowerCase)

/-- The check lets the run go on. -/
def CrossCheckPasses (network : Environment) (derived : List DerivedWorker)
    (reported : List ReportedWorker) : Prop :=
  ∃ logged, crossCheck toLowerCase network derived (.workers reported) = .ok logged

/-- A path of both sides that the service has at another address, an empty one aside. -/
def Readdressed (derived : List DerivedWorker) (reported : List ReportedWorker) : Prop :=
  ∃ d ∈ derived, ∃ w ∈ reported, w.path = d.path ∧ (w.entry toLowerCase).2 ≠ "" ∧
    (w.entry toLowerCase).2 ≠ (d.entry toLowerCase).2

/-- Every derived path is reported, without an address only where none is derived. -/
def AllReported (derived : List DerivedWorker) (reported : List ReportedWorker) : Prop :=
  ∀ d ∈ derived, ∃ w ∈ reported, w.path = d.path ∧
    ((w.entry toLowerCase).2 = "" → (d.entry toLowerCase).2 = "")

end Statements

/-! ## The two comparisons -/

/-- The count is found wrong if it is. -/
theorem sizeDifference_eq_nil_iff {mine theirs : List (String × String)} :
    sizeDifference mine theirs = [] ↔ mine.length = theirs.length := by
  rw [sizeDifference]
  split
  · rename_i hne
    simp [hne]
  · rename_i heq
    simpa using heq

/-- The loop finds nothing if every path that both sides know, and the service with an address, has
    one address on both. -/
theorem addressDifferences_eq_nil_iff {mine theirs : List (String × String)}
    (hnd : (theirs.map Prod.fst).Nodup) :
    addressDifferences mine theirs = [] ↔ ∀ e ∈ mine, ∀ other, (e.1, other) ∈ theirs →
      other ≠ "" → other = e.2 := by
  rw [addressDifferences, List.filterMap_eq_nil_iff]
  refine forall₂_congr fun e _ => ?_
  cases hlookup : theirs.lookup e.1 with
  | none =>
    have hnone : ∀ other, (e.1, other) ∉ theirs := by
      intro other hmem
      rw [← List.lookup_eq_some_iff_mem hnd, hlookup] at hmem
      cases hmem
    simp [hnone]
  | some found =>
    -- with distinct keys the one that is found is the only one there is
    have honly : ∀ other, (e.1, other) ∈ theirs ↔ other = found := by
      intro other
      rw [← List.lookup_eq_some_iff_mem hnd, hlookup, Option.some.injEq, eq_comm]
    simp only [honly, forall_eq]
    split
    · rename_i hdiffer
      simp [hdiffer]
    · rename_i hsame
      simpa using hsame

section Check

variable {toLowerCase : String → String} {network : Environment}
  {derived : List DerivedWorker} {reported : List ReportedWorker}

/-- The entries of the derived workers are under their paths. -/
private theorem derived_keys :
    (derived.map (DerivedWorker.entry toLowerCase)).map Prod.fst =
      derived.map DerivedWorker.path := by
  rw [List.map_map]
  rfl

/-- And so are those of the reported ones. -/
private theorem reported_keys :
    (reported.map (ReportedWorker.entry toLowerCase)).map Prod.fst =
      reported.map ReportedWorker.path := by
  rw [List.map_map]
  rfl

/-- A reported worker has an entry under its path. -/
private theorem entry_mem {w : ReportedWorker} {path : String} (hw : w ∈ reported)
    (hpath : w.path = path) :
    (path, (w.entry toLowerCase).2) ∈ reported.map (ReportedWorker.entry toLowerCase) := by
  subst hpath
  exact List.mem_map.mpr ⟨w, hw, rfl⟩

/-- A map built of entries under distinct paths has them all. -/
theorem mineOf_eq (hmine : (derived.map DerivedWorker.path).Nodup) :
    mineOf toLowerCase derived = derived.map (DerivedWorker.entry toLowerCase) :=
  List.tableOf_eq_self (derived_keys ▸ hmine)

/-- The same of what the service reports. -/
theorem theirsOf_eq (htheirs : (reported.map ReportedWorker.path).Nodup) :
    theirsOf toLowerCase reported = reported.map (ReportedWorker.entry toLowerCase) :=
  List.tableOf_eq_self (reported_keys ▸ htheirs)

/-- The check lets the run go on when the numbers agree and no common path is readdressed. -/
theorem crossCheck_passes_iff (hmine : (derived.map DerivedWorker.path).Nodup)
    (htheirs : (reported.map ReportedWorker.path).Nodup) :
    CrossCheckPasses toLowerCase network derived reported ↔
      derived.length = reported.length ∧ ¬ Readdressed toLowerCase derived reported := by
  have hkeys : ((reported.map (ReportedWorker.entry toLowerCase)).map Prod.fst).Nodup :=
    reported_keys ▸ htheirs
  -- the two sizes are compared first, then the paths that both know
  have hsizes : sizeDifference (mineOf toLowerCase derived) (theirsOf toLowerCase reported) = [] ↔
      derived.length = reported.length := by
    rw [sizeDifference_eq_nil_iff, mineOf_eq hmine, theirsOf_eq htheirs, List.length_map,
      List.length_map]
  have haddresses : addressDifferences (mineOf toLowerCase derived)
      (theirsOf toLowerCase reported) = [] ↔ ¬ Readdressed toLowerCase derived reported := by
    rw [mineOf_eq hmine, theirsOf_eq htheirs, addressDifferences_eq_nil_iff hkeys]
    constructor
    · rintro hsame ⟨d, hd, w, hw, hpath, hfilled, hdiffer⟩
      exact hdiffer (hsame _ (List.mem_map_of_mem hd) _ (entry_mem hw hpath) hfilled)
    · intro hnone e he other hother hfilled
      obtain ⟨d, hd, rfl⟩ := List.mem_map.mp he
      obtain ⟨w, hw, hentry⟩ := List.mem_map.mp hother
      have hpath : w.path = d.path := congrArg Prod.fst hentry
      have haddress : (w.entry toLowerCase).2 = other := congrArg Prod.snd hentry
      by_contra hdiffer
      exact hnone ⟨d, hd, w, hw, hpath, haddress ▸ hfilled, haddress ▸ hdiffer⟩
  -- it passes if neither comparison has anything to report
  rw [← hsizes, ← haddresses, ← List.append_eq_nil_iff, ← List.length_eq_zero_iff]
  simp only [CrossCheckPasses, crossCheck]
  split
  · rename_i hpos
    simp only [reduceCtorEq, exists_false, false_iff]
    omega
  · rename_i hzero
    simp only [Except.ok.injEq, exists_eq', true_iff]
    omega

/-- Equal maps pass. -/
theorem SameAddresses.passes (hmine : (derived.map DerivedWorker.path).Nodup)
    (htheirs : (reported.map ReportedWorker.path).Nodup)
    (h : SameAddresses toLowerCase derived reported) :
    CrossCheckPasses toLowerCase network derived reported := by
  rw [crossCheck_passes_iff hmine htheirs]
  have hmineKeys : ((derived.map (DerivedWorker.entry toLowerCase)).map Prod.fst).Nodup :=
    derived_keys ▸ hmine
  have htheirKeys : ((reported.map (ReportedWorker.entry toLowerCase)).map Prod.fst).Nodup :=
    reported_keys ▸ htheirs
  constructor
  · -- without repetition, the same members mean the same number
    have hperm := (List.perm_ext_iff_of_nodup hmineKeys.of_map htheirKeys.of_map).mpr h
    simpa using hperm.length_eq
  · rintro ⟨d, hd, w, hw, hpath, _, hdiffer⟩
    have hfound : (d.path, (w.entry toLowerCase).2) ∈
        derived.map (DerivedWorker.entry toLowerCase) := by
      rw [h]
      exact entry_mem hw hpath
    have hown : d.entry toLowerCase ∈ derived.map (DerivedWorker.entry toLowerCase) :=
      List.mem_map_of_mem hd
    -- one path has one address
    rw [← List.lookup_eq_some_iff_mem hmineKeys] at hfound
    have hlookup := (List.lookup_eq_some_iff_mem hmineKeys).mpr
      (show (d.path, (d.entry toLowerCase).2) ∈ _ from hown)
    exact hdiffer (Option.some.inj (hfound.symm.trans hlookup))

/-- Of the maps that pass, those that report every derived path are equal. -/
theorem sameAddresses_of_passes (hmine : (derived.map DerivedWorker.path).Nodup)
    (htheirs : (reported.map ReportedWorker.path).Nodup)
    (hpasses : CrossCheckPasses toLowerCase network derived reported)
    (hall : AllReported toLowerCase derived reported) :
    SameAddresses toLowerCase derived reported := by
  obtain ⟨hsizes, hnone⟩ := (crossCheck_passes_iff hmine htheirs).mp hpasses
  have hmineKeys : ((derived.map (DerivedWorker.entry toLowerCase)).map Prod.fst).Nodup :=
    derived_keys ▸ hmine
  -- as many entries on both sides, so one inclusion is enough
  refine List.mem_iff_of_subset_of_length_le hmineKeys.of_map ?_ (by simp [hsizes])
  intro e he
  obtain ⟨d, hd, rfl⟩ := List.mem_map.mp he
  obtain ⟨w, hw, hpath, hempty⟩ := hall d hd
  -- it is reported, and not readdressed
  have haddress : (w.entry toLowerCase).2 = (d.entry toLowerCase).2 := by
    by_cases hfilled : (w.entry toLowerCase).2 = ""
    · rw [hfilled, hempty hfilled]
    · by_contra hdiffer
      exact hnone ⟨d, hd, w, hw, hpath, hfilled, hdiffer⟩
  have hentry : w.entry toLowerCase = d.entry toLowerCase := Prod.ext hpath haddress
  exact hentry ▸ List.mem_map_of_mem hw

end Check

/-! ## The run -/

namespace Sweep

variable {run : Sweep} {toLowerCase : String → String}

/-- The run derives these addresses for a network it asks the service about, and this is what
    the service reports. -/
def Compares (run : Sweep) (network : Environment) (derived : List DerivedWorker)
    (reported : List ReportedWorker) : Prop :=
  run.asksService = true ∧ ∃ envs requester workers position,
    run.networks = .ok envs ∧ run.requester = .ok requester ∧
    run.deriveAll requester envs = .ok workers ∧ envs[position]? = some network ∧
    ofNetwork workers network = derived ∧ run.reads.replies position = .workers reported

/-- The loop goes on only when every check lets it. -/
theorem crossChecks_passed {workers : List SweepWorker} {envs : List Environment}
    {start i : Nat} {network : Environment} (hnetwork : envs[i]? = some network)
    (h : run.crossChecks toLowerCase workers start envs = .ok ()) :
    ∃ logged, crossCheck toLowerCase network (ofNetwork workers network)
      (run.reads.replies (start + i)) = .ok logged := by
  induction envs generalizing start i with
  | nil => simp at hnetwork
  | cons first rest ih =>
    rw [crossChecks, Except.bind_eq_ok_iff] at h
    obtain ⟨logged, hlogged, hrest⟩ := h
    cases i with
    -- the check of this network, or of one further on
    | zero =>
      rw [List.getElem?_cons_zero, Option.some.injEq] at hnetwork
      subst hnetwork
      exact ⟨logged, hlogged⟩
    | succ i =>
      rw [List.getElem?_cons_succ] at hnetwork
      have hposition : start + (i + 1) = start + 1 + i := by omega
      rw [hposition]
      exact ih hnetwork hrest

/-- What has been settled by the time the addresses are known. -/
theorem prepare_ok {workers : List SweepWorker} (h : run.prepare toLowerCase = .ok workers) :
    ∃ envs requester, run.networks = .ok envs ∧ run.requester = .ok requester ∧
      run.deriveAll requester envs = .ok workers ∧
      run.checkService toLowerCase workers envs = .ok () := by
  simp only [prepare, Except.bind_eq_ok_iff] at h
  obtain ⟨envs, henvs, _, _, _, _, _, _, _, _, requester, hrequester, _, _, _, _, _, _, _, _,
    derived, hderived, _, hservice, hworkers⟩ := h
  cases hworkers
  exact ⟨envs, requester, henvs, hrequester, hderived, hservice⟩

/-- The loop is to make the transfers of the plan, which is within its limits, unless it is a
    dry run. -/
theorem main_ok {transfers : List Transfer} (h : run.main toLowerCase = .ok transfers) :
    ∃ account workers, run.prepare toLowerCase = .ok workers ∧
      (run.plan workers ≠ [] → run.checkPlan account (run.plan workers) = .ok ()) ∧
      transfers = if run.args.dryRun then [] else run.plan workers := by
  simp only [main, Except.bind_eq_ok_iff] at h
  obtain ⟨workers, hprepare, _, _, account, _, htransfers⟩ := h
  refine ⟨account, workers, hprepare, ?_⟩
  rw [Sweep.transfers] at htransfers
  split at htransfers
  · -- nothing to send: the limits are not even looked at
    rename_i hempty
    have hnil : run.plan workers = [] := List.length_eq_zero_iff.mp hempty
    cases htransfers
    rw [hnil]
    exact ⟨fun hne => absurd rfl hne, by split <;> rfl⟩
  · rw [Except.map_eq_ok_iff] at htransfers
    obtain ⟨_, hlimits, rfl⟩ := htransfers
    exact ⟨fun _ => hlimits, rfl⟩

/-- A planned transfer fills an address that is short up to the target. -/
theorem mem_plan {transfer : Transfer} {workers : List SweepWorker}
    (h : transfer ∈ run.plan workers) :
    ∃ w i, workers[i]? = some w ∧ run.reads.balances i < run.topUpTo ∧
      transfer = { «to» := w.worker.address, value := run.topUpTo - run.reads.balances i } := by
  rw [plan, List.mem_filterMap] at h
  obtain ⟨⟨w, i⟩, hw, hshort⟩ := h
  rw [List.mk_mem_zipIdx_iff_getElem?] at hw
  dsimp only at hshort
  split at hshort
  · rename_i hbelow
    cases hshort
    exact ⟨w, i, hw, hbelow, rfl⟩
  · cases hshort

/-- A run that gets as far as sending has passed the check of every network it asked about. -/
theorem main_crossChecked {network : Environment} {derived : List DerivedWorker}
    {reported : List ReportedWorker} {transfers : List Transfer}
    (hcompares : run.Compares network derived reported)
    (h : run.main toLowerCase = .ok transfers) :
    CrossCheckPasses toLowerCase network derived reported := by
  obtain ⟨hasks, envs, requester, workers, position, henvs, hrequester, hworkers, hnetwork,
    hderived, hreply⟩ := hcompares
  rw [main, Except.bind_eq_ok_iff] at h
  obtain ⟨prepared, hprepare, _⟩ := h
  -- the run goes on only past `checkService`, over what it derived itself
  obtain ⟨envs', requester', henvs', hrequester', hworkers', hservice⟩ := prepare_ok hprepare
  rw [henvs, Except.ok.injEq] at henvs'
  rw [hrequester, Except.ok.injEq] at hrequester'
  subst henvs' hrequester'
  rw [hworkers, Except.ok.injEq] at hworkers'
  subst hworkers'
  rw [checkService, if_pos hasks] at hservice
  have hpassed := crossChecks_passed hnetwork hservice
  rwa [Nat.zero_add, hderived, hreply] at hpassed

end Sweep

/-- The check lets the run go on for equal maps only, if and only if a difference shows in the
    numbers, in the address of a common path, or there is none to be seen because every derived
    path is reported. What it does not let through is not paid for. -/
theorem crossCheck_detects_iff (toLowerCase : String → String) (network : Environment)
    {derived : List DerivedWorker} {reported : List ReportedWorker}
    (hmine : (derived.map DerivedWorker.path).Nodup)
    (htheirs : (reported.map ReportedWorker.path).Nodup) :
    ((CrossCheckPasses toLowerCase network derived reported ↔
        SameAddresses toLowerCase derived reported) ↔
      derived.length ≠ reported.length ∨ Readdressed toLowerCase derived reported ∨
        AllReported toLowerCase derived reported) ∧
    ∀ run : Sweep, run.Compares network derived reported →
      ¬ CrossCheckPasses toLowerCase network derived reported →
      ∀ transfers, run.main toLowerCase ≠ .ok transfers := by
  have hpasses : CrossCheckPasses toLowerCase network derived reported ↔ _ :=
    crossCheck_passes_iff hmine htheirs
  refine ⟨⟨fun hexact => ?_, fun hseen => ⟨fun hpassed => ?_, fun hsame => ?_⟩⟩, ?_⟩
  · by_cases hsizes : derived.length = reported.length
    · by_cases hreaddressed : Readdressed toLowerCase derived reported
      · exact .inr (.inl hreaddressed)
      · -- nothing shows, so the maps are equal and every path is reported
        have hsame := hexact.mp (hpasses.mpr ⟨hsizes, hreaddressed⟩)
        refine .inr (.inr fun d hd => ?_)
        obtain ⟨w, hw, hentry⟩ := List.mem_map.mp ((hsame _).mp (List.mem_map_of_mem hd))
        refine ⟨w, hw, congrArg Prod.fst hentry, fun hempty => ?_⟩
        rw [← hentry, hempty]
    · exact .inl hsizes
  · obtain ⟨hsizes, hnone⟩ := hpasses.mp hpassed
    rcases hseen with hdiffer | hreaddressed | hall
    · exact absurd hsizes hdiffer
    · exact absurd hreaddressed hnone
    · exact sameAddresses_of_passes hmine htheirs hpassed hall
  · exact hsame.passes hmine htheirs
  · intro run hcompares hstopped transfers hmain
    exact hstopped (Sweep.main_crossChecked hcompares hmain)

/-! ## A run against a service with another path prefix -/

/-- A sweep of one address, next to a service that gives this answer. -/
def sampleSweep (reply : WorkersReply) : Sweep where
  env :=
    { World.sampleSetup.env with
      apiSecret := some "secret"
      ethRpcUrlSepolia := "http://localhost:8545"
      funding := { key := some "0x01", serviceUrl := some "http://localhost:3001" } }
  libs := World.sampleSetup.libs
  args := { envs := ["dev"] }
  reads :=
    { chainId := 11155111
      replies := fun _ => reply
      balances := fun _ => 0
      maxFeePerGas := 1
      sourceBalance := 1000000000000000000 }

/-- What the sweep derives. -/
def sampleDerived : List DerivedWorker := [{ path := "load-0", address := "0xload-0" }]

/-- What a service with another prefix reports. -/
def renamedReport : List ReportedWorker := [{ path := "pool-0", address := some "0xpool-0" }]

/-- What a service with another root key reports. -/
def readdressedReport : List ReportedWorker := [{ path := "load-0", address := some "0xOTHER" }]

/-- The sample run compares what it derives with whatever is reported. -/
theorem sampleSweep_compares (reported : List ReportedWorker) :
    (sampleSweep (.workers reported)).Compares .dev sampleDerived reported :=
  ⟨rfl, [.dev], "[1]", _, 0, rfl, rfl, rfl, rfl, rfl, rfl⟩

/-- A path at another address is noticed, and nothing is transferred. -/
theorem readdressed_path_stops :
    (CrossCheckPasses String.toLower .dev sampleDerived readdressedReport ↔
        SameAddresses String.toLower sampleDerived readdressedReport) ∧
      ∀ transfers,
        (sampleSweep (.workers readdressedReport)).main String.toLower ≠ .ok transfers := by
  have hseen : Readdressed String.toLower sampleDerived readdressedReport :=
    ⟨_, List.mem_singleton.mpr rfl, _, List.mem_singleton.mpr rfl, rfl, by decide +kernel,
      by decide +kernel⟩
  have hmine : (sampleDerived.map DerivedWorker.path).Nodup := by decide
  have htheirs : (readdressedReport.map ReportedWorker.path).Nodup := by decide
  obtain ⟨hexact, hstops⟩ := crossCheck_detects_iff String.toLower .dev hmine htheirs
  refine ⟨hexact.mpr (.inr (.inl hseen)), ?_⟩
  -- the path is the same on both sides and the address is not
  apply hstops _ (sampleSweep_compares readdressedReport)
  rw [crossCheck_passes_iff hmine htheirs]
  exact fun hpasses => hpasses.2 hseen

/-- A path the service knows under another name is not: the run pays an address that the service
    does not have. -/
theorem renamed_path_passes :
    CrossCheckPasses String.toLower .dev sampleDerived renamedReport ∧
      ¬ SameAddresses String.toLower sampleDerived renamedReport ∧
      (sampleSweep (.workers renamedReport)).Compares .dev sampleDerived renamedReport ∧
      (sampleSweep (.workers renamedReport)).main String.toLower =
        .ok [{ «to» := "0xload-0", value := 9000000000000000 }] := by
  refine ⟨?_, ?_, ?_, ?_⟩
  · rw [crossCheck_passes_iff (by decide) (by decide)]
    refine ⟨rfl, ?_⟩
    -- no path is known to both, so none is at another address
    rintro ⟨d, hd, w, hw, hpath, _⟩
    cases List.mem_singleton.mp hd
    cases List.mem_singleton.mp hw
    exact absurd hpath (by decide)
  · intro hsame
    have hmem := (hsame ("load-0", "0xload-0".toLower)).mp (List.mem_singleton.mpr rfl)
    exact absurd hmem (by decide +kernel)
  · exact sampleSweep_compares renamedReport
  · decide +kernel

end ContractPinger
