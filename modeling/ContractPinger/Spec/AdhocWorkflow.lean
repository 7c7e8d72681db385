import ContractPinger.Model.AdhocWorkflow
import ContractPinger.Spec.AdhocRun
import ContractPinger.Spec.EnvSchema

/-!
# The ad hoc workflow, from text to text

The figures of the funding step go through four programs that have nothing in common but decimal
notation: the schema, `fund:config`, the arithmetic of the step, and the `--topup` of the sweep.
What arrives is what was computed, unless it is too small: below a millionth of an ETH the step
prints an exponent, which `parseEther` does not read.

## Key results

- `AdhocWorkflow.sweep_iff`: which target the sweep is given, and when it is given one
- `AdhocWorkflow.none_starved`: from the variables of the two jobs to the records of the load
  test
-/

namespace ContractPinger

open Decimals Machine Rounding

/-! ## Printing -/

/-- With no exponent a `Decimal` is printed with all its places. -/
theorem decimalString_plain {n places : Nat}
    (h : places < (Nat.toDigits 10 n).length + 6) :
    decimalString n places = String.ofList (Numeral.fixed places n).text := by
  unfold decimalString
  dsimp only
  rw [if_pos h]
  refine congrArg String.ofList ?_
  rcases Nat.eq_zero_or_pos places with rfl | hplaces
  · have hsome : ¬ (Nat.toDigits 10 n).length ≤ 0 := Nat.not_le.mpr Nat.length_toDigits_pos
    rw [if_neg hsome, if_pos rfl]
    simp [Numeral.text, Numeral.fixed, lastDigits]
  · have hne : (Numeral.fixed places n).fraction ≠ [] := by
      rw [← List.length_pos_iff, Numeral.length_fraction_fixed]
      exact hplaces
    rw [Numeral.text, if_neg hne]
    split
    · -- nothing is left before the point
      rename_i hle
      have hlt : n < 10 ^ places := (Nat.length_toDigits_le_iff (by decide) hplaces).mp hle
      have hwhole : (Numeral.fixed places n).whole = ['0'] := by
        rw [Numeral.whole_fixed, Nat.div_eq_of_lt hlt, Nat.toDigits_zero]
      rw [hwhole, Numeral.fraction_fixed, lastDigits_eq_append hplaces hlt]
      rfl
    · rename_i hgt
      have hle : 10 ^ places ≤ n := by
        rw [← Nat.not_lt, ← Nat.length_toDigits_le_iff (by decide) hplaces]
        exact hgt
      have hlength : (Nat.toDigits 10 n).length - places =
          (Nat.toDigits 10 (n / 10 ^ places)).length := by
        rw [toDigits_eq_append hle, List.length_append, length_lastDigits, Nat.add_sub_cancel]
      rw [if_neg (Nat.pos_iff_ne_zero.mp hplaces), hlength, toDigits_eq_append hle,
        List.take_left, List.drop_left]
      rfl

/-- Otherwise there is an exponent. -/
theorem mem_decimalString {n places : Nat} (h : (Nat.toDigits 10 n).length + 6 ≤ places) :
    'E' ∈ (decimalString n places).toList := by
  unfold decimalString
  dsimp only
  rw [if_neg (Nat.not_lt.mpr h), String.toList_ofList]
  simp

/-! ## Reading -/

/-- A text that writes a numeral is read as its value. -/
theorem decimalOf_eq {text : String} {x : Numeral} (h : x.text = text.toList) :
    decimalOf text = some x.value := by
  rw [decimalOf, parse_eq_some_iff.mpr h]
  rfl

/-- A count is read as itself. -/
theorem decimalOf_toString (n : Nat) : decimalOf (toString n) = some (n : ℚ) := by
  have htext : (Numeral.ofNat n).text = (toString n).toList := by
    rw [Numeral.text_ofNat, Nat.toString_eq_repr, Nat.toList_repr]
  rw [decimalOf_eq htext, Numeral.value_ofNat]

/-- An amount that the schema accepts is a numeral. -/
theorem numeral_of_isDecimal {text : String} (h : Check.isDecimal text = true) :
    ∃ x : Numeral, x.text = text.toList := by
  obtain ⟨x, hx⟩ := Option.isSome_iff_exists.mp h
  exact ⟨x, text_of_parse hx⟩

/-! ## The program -/

/-- Whole amounts of wei that fit the precision are exact. -/
theorem toDigits_div_wei {n : Nat} (h : n < 10 ^ decimalPrecision) :
    toDigits decimalPrecision ((n : ℚ) / 10 ^ 18) = n / 10 ^ 18 := by
  have hzpow : ((n : ℚ) / 10 ^ 18) = n * 10 ^ (-18 : ℤ) := by
    rw [zpow_neg, div_eq_mul_inv]
    norm_cast
  rw [hzpow]
  exact toDigits_eq_self h

section Program

variable {floorWei jobs paths gasPerRun gasMargin : Nat} {gas band : Numeral}
  {gasText bandText : String} {bandTopUp : ℚ} {target : ℤ}

/-- On the figures the step is given, the program prints the target in wei. -/
theorem topUpProgram_eq (hgas : gas.text = gasText.toList) (hplaces : gas.fraction.length ≤ 18)
    (hband : band.text = bandText.toList) :
    topUpProgram (toString floorWei) jobs paths gasText (toString gasMargin) bandText =
      (topUpTarget floorWei jobs paths (gas.units 18) gasMargin band.value).map fun target =>
        decimalString target.toNat 18 := by
  have hvalue : gas.value = (gas.units 18 : ℚ) / 10 ^ 18 := by
    rw [Numeral.units_eq_value hplaces]
    field_simp
  simp only [topUpProgram, decimalOf_toString, decimalOf_eq hgas, decimalOf_eq hband, hvalue,
    topUpTarget,
    Option.bind_eq_bind, Option.bind_some]
  split
  · rfl
  · split <;> rfl

/-- The program prints a target unless there is no path, or the target has more digits than the
    precision; and what it prints is the sized target, in whole wei. -/
theorem topUpTarget_iff :
    topUpTarget floorWei jobs paths gasPerRun gasMargin bandTopUp = some target ↔
      paths ≠ 0 ∧
        target = halfEven (sizedTarget floorWei jobs paths gasPerRun gasMargin bandTopUp) ∧
        target < 10 ^ decimalPrecision := by
  constructor
  · intro h
    have htarget := topUpTarget_eq h
    unfold topUpTarget at h
    split at h
    · cases h
    · rename_i hpaths
      dsimp only at h
      split at h
      · rename_i hfits
        obtain rfl := Option.some.inj h
        exact ⟨hpaths, htarget, hfits⟩
      · cases h
  · rintro ⟨hpaths, rfl, hfits⟩
    rw [sizedTarget] at hfits ⊢
    rw [topUpTarget, if_neg hpaths]
    dsimp only
    rw [neg_floorDiv_neg jobs (Nat.pos_of_ne_zero hpaths), Int.cast_natCast]
    generalize jobs ⌈/⌉ paths = share at hfits ⊢
    -- the sum is no more than the target, so it fits, and so does each part of it
    have hsum : floorWei + share * gasPerRun * gasMargin < 10 ^ decimalPrecision := by
      have hle : ((floorWei + share * gasPerRun * gasMargin : Nat) : ℤ) ≤
          halfEven (max ((floorWei + share * gasPerRun * gasMargin : Nat) : ℚ)
            (bandTopUp * 10 ^ 18)) :=
        le_halfEven (by rw [Int.cast_natCast]; exact le_max_left _ _)
      exact_mod_cast hle.trans_lt hfits
    have hneed : toDigits decimalPrecision (toDigits decimalPrecision
        ((share : ℚ) * (gasPerRun / 10 ^ 18)) * gasMargin) =
          (share * gasPerRun * gasMargin : Nat) / 10 ^ 18 := by
      have hgas : (share : ℚ) * (gasPerRun / 10 ^ 18) = (share * gasPerRun : Nat) / 10 ^ 18 := by
        push_cast
        ring
      rw [hgas]
      rcases Nat.eq_zero_or_pos gasMargin with rfl | hmargin
      · simp
      · have hless : share * gasPerRun ≤ share * gasPerRun * gasMargin :=
          Nat.le_mul_of_pos_right _ hmargin
        have hscaled : ((share * gasPerRun : Nat) : ℚ) / 10 ^ 18 * gasMargin =
            (share * gasPerRun * gasMargin : Nat) / 10 ^ 18 := by
          push_cast
          ring
        rw [toDigits_div_wei (by omega), hscaled, toDigits_div_wei (by omega)]
    have htotal : ((floorWei : ℚ) / 10 ^ 18 + (share * gasPerRun * gasMargin : Nat) / 10 ^ 18) =
        (floorWei + share * gasPerRun * gasMargin : Nat) / 10 ^ 18 := by
      push_cast
      ring
    rw [hneed, toDigits_div_wei (by omega), htotal, toDigits_div_wei hsum,
      max_mul_of_nonneg _ _ (by positivity), div_mul_cancel₀ _ (by positivity), if_pos hfits]

/-- A target that was computed is a whole number of wei. -/
theorem exists_nat_of_sized
    (h : topUpTarget floorWei jobs paths gasPerRun gasMargin bandTopUp = some target) :
    ∃ n : Nat, target = n := by
  refine Int.eq_ofNat_of_zero_le ?_
  rw [(topUpTarget_iff.mp h).2.1]
  refine le_halfEven ?_
  rw [Int.cast_zero, sizedTarget]
  exact le_max_of_le_left (Nat.cast_nonneg _)

/-- So does the step, on the lines of a configuration. -/
theorem fundingTarget_eq {parsed : Parsed} (hgas : gas.text = (parsed .gasPerRunEth).toList)
    (hplaces : gas.fraction.length ≤ 18) (hband : band.text = (parsed .fundTopUpEth).toList) :
    fundingTarget parsed.fundConfig jobs paths =
      (topUpTarget (parsed .minBalanceWei) jobs paths (gas.units 18) (parsed .gasMargin)
        band.value).map fun target => decimalString target.toNat 18 :=
  topUpProgram_eq hgas hplaces hband

end Program

/-! ## What arrives -/

/-- What viem documents of `parseEther`, as far as the scripts rely on it: a numeral of no more
    than 18 places is read exactly, and a text with an exponent is none. -/
structure EtherDocumented (parseEther : String → Except JsError Nat) : Prop where
  numeral : ∀ x : Numeral, x.fraction.length ≤ 18 →
    parseEther (String.ofList x.text) = .ok (x.units 18)
  exponent : ∀ text : String, 'E' ∈ text.toList → ∃ e, parseEther text = .error e

/-- A target that is printed is read as it is from a millionth of an ETH on, and not at all
    below. -/
theorem parseEther_decimalString_iff {parseEther : String → Except JsError Nat}
    (he : EtherDocumented parseEther) {target topUp : Nat} :
    parseEther (decimalString target 18) = .ok topUp ↔ topUp = target ∧ 10 ^ 12 ≤ target := by
  have hlength : (Nat.toDigits 10 target).length ≤ 12 ↔ target < 10 ^ 12 :=
    Nat.length_toDigits_le_iff (by decide) (by decide)
  rcases Nat.lt_or_ge target (10 ^ 12) with hsmall | hlarge
  · have hle := hlength.mpr hsmall
    -- below a millionth of an ETH, Python writes an exponent, which `parseEther` refuses
    have hexponent : 'E' ∈ (decimalString target 18).toList := mem_decimalString (by omega)
    obtain ⟨e, herror⟩ := he.exponent _ hexponent
    rw [herror]
    constructor
    · intro h
      cases h
    · rintro ⟨-, hlarge⟩
      omega
  · -- from there on it writes digits and a point
    have hplain : 18 < (Nat.toDigits 10 target).length + 6 := by
      by_contra hshort
      exact absurd (hlength.mp (by omega)) (Nat.not_lt.mpr hlarge)
    rw [decimalString_plain hplain, he.numeral _ (le_of_eq (Numeral.length_fraction_fixed _ _)),
      Numeral.units_fixed, Except.ok.injEq]
    constructor
    · rintro rfl
      exact ⟨rfl, hlarge⟩
    · rintro ⟨rfl, -⟩
      rfl

/-! ## The two jobs -/

namespace AdhocWorkflow

variable {zod : Zod} {parseEther : String → Except JsError Nat} {libs : Libraries}
  {reads : SweepReads} {w : AdhocWorkflow} {run : Sweep} {s : Setup} {fund load : Parsed}
  {env : Env} {gas band : Numeral}

/-- When the funding step ends well, and with what the script is then called. -/
theorem sweep_eq_some_iff : w.sweep zod parseEther libs reads = some run ↔
    (w.fund = true ∧ (w.fundEnv.setting .fundingSk).isSome = true) ∧
    ∃ fund target env topUp, parse zod w.fundEnv = .ok fund ∧
      fundingTarget fund.fundConfig w.jobs w.paths = some target ∧
      fund.env parseEther = .ok env ∧ parseEther target = .ok topUp ∧
      run =
        { env, libs, args := { envs := [w.environment.name], topUp := some topUp }, reads } := by
  have hgoes : ¬ (w.fund = false ∨ w.fundEnv.setting .fundingSk = none) ↔
      w.fund = true ∧ (w.fundEnv.setting .fundingSk).isSome = true := by
    rw [not_or, Bool.not_eq_false, Option.isSome_iff_ne_none]
  simp only [sweep, Option.bind_eq_bind, Option.bind_eq_some_iff, Except.toOption_eq_some_iff,
    Option.pure_def, Option.some_inj, Option.ite_none_left_eq_some, hgoes, eq_comm (a := run)]
  constructor
  · rintro ⟨fund, hfund, hrequested, target, htarget, env, henv, topUp, htopUp, rfl⟩
    exact ⟨hrequested, fund, target, env, topUp, hfund, htarget, henv, htopUp, rfl⟩
  · rintro ⟨hrequested, fund, target, env, topUp, hfund, htarget, henv, htopUp, rfl⟩
    exact ⟨fund, hfund, hrequested, target, htarget, env, henv, topUp, htopUp, rfl⟩

/-- When the service starts, and with what environment. -/
theorem service_eq_some_iff : w.service zod parseEther libs = some s ↔
    ∃ load env, parse zod w.loadEnv = .ok load ∧ load.env parseEther = .ok env ∧
      s = { env, libs, environment := w.environment } := by
  simp only [service, Option.bind_eq_bind, Option.bind_eq_some_iff, Except.toOption_eq_some_iff,
    Option.pure_def, Option.some_inj, eq_comm (a := s)]
  constructor
  · rintro ⟨load, hload, env, henv, rfl⟩
    exact ⟨load, env, hload, henv, rfl⟩
  · rintro ⟨load, env, hload, henv, rfl⟩
    exact ⟨load, hload, env, henv, rfl⟩

/-- The shared variables come to the same in both jobs. -/
theorem Configured.agree (hc : w.Configured) (hfund : parse zod w.fundEnv = .ok fund)
    (hload : parse zod w.loadEnv = .ok load) {v : Variable} (hv : v ∈ sharedVariables) :
    fund v = load v :=
  parse_congr hfund hload (hc.shared v hv)

/-- The path count is the one the program divides by. -/
theorem Configured.parsed_paths (hc : w.Configured) (hz : zod.Documented)
    (hfund : parse zod w.fundEnv = .ok fund) : (fund .paths : Nat) = w.paths := by
  have hrun := parse_eq_ok_iff.mp hfund .paths
  rw [hc.paths] at hrun
  exact (hz.integer_toString.mp hrun).1

/-- The job passes the secret key on to the service. -/
theorem Configured.solSk_ne (hc : w.Configured) (hload : parse zod w.loadEnv = .ok load) :
    (load .solSk : Option String).getD "" ≠ "" := by
  obtain ⟨sk, hsk⟩ := Option.isSome_iff_exists.mp hc.secret
  have hrun := parse_eq_ok_iff.mp hload .solSk
  rw [hsk] at hrun
  have hvalue : load .solSk = some sk := (Except.ok.inj hrun).symm
  rw [hvalue, Option.getD_some]
  exact (ProcessEnv.setting_eq_some_iff.mp hsk).2

/-- What `env` takes over of a configuration, as far as the two jobs share it. -/
theorem env_shared (h : fund.env parseEther = .ok env) :
    env.solSk = (fund .solSk : Option String).getD "" ∧
    env.solRootPublicKey = fund .solRootPublicKey ∧
    env.bidirectional.paths = fund .paths ∧
    env.bidirectional.pathPrefix = fund .pathPrefix ∧
    env.bidirectional.minBalanceWei = fund .minBalanceWei := by
  simp only [Parsed.env, Except.bind_eq_ok_iff] at h
  obtain ⟨_, -, _, -, _, -, _, -, h⟩ := h
  obtain rfl := Except.ok.inj h
  exact ⟨rfl, rfl, rfl, rfl, rfl⟩

/-- So the sweep and the service derive the same addresses. -/
theorem shares (hc : w.Configured) (hrun : w.sweep zod parseEther libs reads = some run)
    (hs : w.service zod parseEther libs = some s) : run.Shares s := by
  obtain ⟨-, fund, target, env, topUp, hfund, -, henv, -, rfl⟩ := sweep_eq_some_iff.mp hrun
  obtain ⟨load, env', hload, henv', rfl⟩ := service_eq_some_iff.mp hs
  obtain ⟨hsk, hroot, hpaths, hnames, -⟩ := env_shared henv
  obtain ⟨hsk', hroot', hpaths', hnames', -⟩ := env_shared henv'
  have hagree := fun v hv => hc.agree hfund hload (v := v) hv
  have hsame : env.solSk = env'.solSk := by
    rw [hsk, hsk', hagree .solSk (by decide)]
  -- a service with the sweep's own environment would do
  have hown : Sweep.Shares
      { env, libs, args := { envs := [w.environment.name], topUp := some topUp }, reads }
      { env, libs, environment := w.environment } := by
    refine Sweep.shares_of_env rfl rfl ?_
    rw [hsame, hsk']
    exact hc.solSk_ne hload
  exact
    { libs := rfl
      pathPrefix := by rw [hnames, hnames', hagree .pathPrefix (by decide)]
      paths := by rw [hpaths, hpaths', hagree .paths (by decide)]
      rootPublicKey := by rw [hroot, hroot', hagree .solRootPublicKey (by decide)]
      requester := fun requester h => by
        rw [← hsame]
        exact hown.requester requester h }

/-- The amounts of a configuration that was accepted are numerals. -/
theorem exists_band (hz : zod.Documented) (hfund : parse zod w.fundEnv = .ok fund) :
    ∃ band : Numeral, band.text = (fund .fundTopUpEth).toList :=
  numeral_of_isDecimal (parse_wellFormed hz hfund .fundTopUpEth).1

/-- What the sweep is given is the target that was printed. -/
theorem sized_of_sweep (he : EtherDocumented parseEther) (hfund : parse zod w.fundEnv = .ok fund)
    (hgas : gas.text = (fund .gasPerRunEth).toList) (hplaces : gas.fraction.length ≤ 18)
    (hband : band.text = (fund .fundTopUpEth).toList)
    (hrun : w.sweep zod parseEther libs reads = some run) :
    ∃ topUp : Nat, run.args.topUp = some topUp ∧ 10 ^ 12 ≤ topUp ∧
      topUpTarget (fund .minBalanceWei) w.jobs w.paths (gas.units 18) (fund .gasMargin)
        band.value = some topUp := by
  obtain ⟨-, fund', text, env, topUp, hfund', htext, -, hread, rfl⟩ := sweep_eq_some_iff.mp hrun
  obtain rfl : fund = fund' := Except.ok.inj (hfund.symm.trans hfund')
  rw [fundingTarget_eq hgas hplaces hband, Option.map_eq_some_iff] at htext
  obtain ⟨target, hsized, rfl⟩ := htext
  -- printed without a sign, since the size is never negative
  obtain ⟨n, rfl⟩ := exists_nat_of_sized hsized
  rw [Int.toNat_natCast] at hread
  obtain ⟨rfl, hlarge⟩ := (parseEther_decimalString_iff he).mp hread
  exact ⟨topUp, rfl, hlarge, hsized⟩

/-- The step gets as far as the sweep when it is asked to fund and has a key to fund with, there
    is a path to fund, and the target is one that can be printed and read: a millionth of an ETH
    or more, and of 28 digits at most. The target of the sweep is then the sized one, to the
    wei. -/
theorem sweep_iff (he : EtherDocumented parseEther) (hfund : parse zod w.fundEnv = .ok fund)
    (henv : fund.env parseEther = .ok env) (hgas : gas.text = (fund .gasPerRunEth).toList)
    (hplaces : gas.fraction.length ≤ 18) (hband : band.text = (fund .fundTopUpEth).toList)
    (topUp : Nat) :
    w.sweep zod parseEther libs reads = some
        { env, libs, args := { envs := [w.environment.name], topUp := some topUp }, reads } ↔
      (w.fund = true ∧ (w.fundEnv.setting .fundingSk).isSome = true) ∧ w.paths ≠ 0 ∧
        (topUp : ℤ) = halfEven (sizedTarget (fund .minBalanceWei) w.jobs w.paths (gas.units 18)
          (fund .gasMargin) band.value) ∧
        10 ^ 12 ≤ topUp ∧ topUp < 10 ^ 28 := by
  have hfits : ((topUp : ℤ) < 10 ^ decimalPrecision) ↔ topUp < 10 ^ 28 := by
    rw [decimalPrecision]
    exact_mod_cast Iff.rfl
  constructor
  · -- a step that ended well has printed a target that can be read
    intro hrun
    obtain ⟨topUp', htopUp, hlarge, hsized⟩ := sized_of_sweep he hfund hgas hplaces hband hrun
    obtain rfl : topUp = topUp' := Option.some.inj htopUp
    obtain ⟨hpaths, htarget, hlt⟩ := topUpTarget_iff.mp hsized
    exact ⟨(sweep_eq_some_iff.mp hrun).1, hpaths, htarget, hlarge, hfits.mp hlt⟩
  · -- and a target that can be read is read as itself
    rintro ⟨hrequested, hpaths, htarget, hlarge, hlt⟩
    have hsized := topUpTarget_iff.mpr ⟨hpaths, htarget, hfits.mpr hlt⟩
    refine sweep_eq_some_iff.mpr
      ⟨hrequested, fund, decimalString topUp 18, env, topUp, hfund, ?_, henv, ?_, rfl⟩
    · rw [fundingTarget_eq hgas hplaces hband, hsized]
      rfl
    · exact (parseEther_decimalString_iff he).mpr ⟨rfl, hlarge⟩

/-- Set up from their variables, the two jobs share what a run of the workflow needs. -/
theorem adhocRun (hz : zod.Documented) (he : EtherDocumented parseEther) (hc : w.Configured)
    (hfund : parse zod w.fundEnv = .ok fund) (hgas : gas.text = (fund .gasPerRunEth).toList)
    (hplaces : gas.fraction.length ≤ 18)
    (hrun : w.sweep zod parseEther libs reads = some run)
    (hs : w.service zod parseEther libs = some s)
    (hdistinct : ∀ solana, s.solana = .ok solana →
      ((buildPaths s.env.bidirectional.pathPrefix s.paths).map fun path =>
        (deriveWorker s.libs solana path).address).Nodup) :
    ∃ band : ℚ, AdhocRun run s w.jobs (gas.units 18) (fund .gasMargin) band := by
  have hshares := shares hc hrun hs
  obtain ⟨band, hband⟩ := exists_band hz hfund
  obtain ⟨topUp, htopUp, -, hsized⟩ := sized_of_sweep he hfund hgas hplaces hband hrun
  obtain ⟨-, _, _, _, _, -, -, -, -, rfl⟩ := sweep_eq_some_iff.mp hrun
  obtain ⟨load, env, hload, henv, rfl⟩ := service_eq_some_iff.mp hs
  obtain ⟨-, -, hpaths, -, hfloor⟩ := env_shared henv
  have hloaded : (load .paths : Nat) = w.paths := by
    rw [← hc.agree hfund hload (v := .paths) (by decide)]
    exact hc.parsed_paths hz hfund
  refine ⟨band.value, hshares, ⟨hc.network, rfl⟩, ⟨topUp, ?_, htopUp⟩, rfl, rfl, hdistinct⟩
  -- the two environments agree on what the target is computed from
  rw [Setup.paths, if_neg hc.network, hfloor, hpaths, hloaded,
    ← hc.agree hfund hload (v := .minBalanceWei) (by decide)]
  exact hsized

/-- From the variables of the workflow to the records of its jobs: where the sweep that was
    sized from them ends well, and the addresses hold what it last read, no job of the load test
    is failed for want of a funded address. -/
theorem none_starved (hz : zod.Documented) (he : EtherDocumented parseEther) (hc : w.Configured)
    (hfund : parse zod w.fundEnv = .ok fund) (hgas : gas.text = (fund .gasPerRunEth).toList)
    (hplaces : gas.fraction.length ≤ 18)
    (hrun : w.sweep zod parseEther libs reads = some run)
    (hs : w.service zod parseEther libs = some s)
    (hdistinct : ∀ solana, s.solana = .ok solana →
      ((buildPaths s.env.bidirectional.pathPrefix s.paths).map fun path =>
        (deriveWorker s.libs solana path).address).Nodup)
    {toLowerCase : String → String} {outcome : Nat → SendRound} {after : Nat → Nat}
    {remaining : Int} {held : Hex → Nat} {solana : SolanaContext}
    (hok : run.complete toLowerCase outcome after remaining = .ok ())
    (hheld : ∀ workers, run.prepare toLowerCase = .ok workers →
      ∀ i worker, workers[i]? = some worker →
        run.lastRead workers after i ≤ held worker.worker.address)
    (hsolana : s.solana = .ok solana) {now : Millis} {served : FundedService}
    (hreach : ReachableUnder (FundedService.step s)
      (FundedService.Affordable s (gas.units 18 * (fund .gasMargin : Nat)))
      (.new s now fun path => held (deriveWorker s.libs solana path).address) served)
    (hjobs : served.world.frames.length ≤ w.jobs) :
    ∀ r ∈ served.world.jobs.jobs, r.failureReason ≠ some .allWorkersUnderfunded := by
  obtain ⟨band, hadhoc⟩ := adhocRun hz he hc hfund hgas hplaces hrun hs hdistinct
  exact fun r hr => hadhoc.reason_ne hok hheld hsolana hreach hjobs hr

/-! ## A load test of three jobs -/

/-- A `parseEther` that reads no numeral of more than 18 places. -/
def sampleEther (text : String) : Except JsError Nat :=
  match Decimals.parse text.toList with
  | some x =>
    if x.fraction.length ≤ 18 then .ok (x.units 18)
    else .error { message := "Number " ++ text ++ " is not a valid decimal number." }
  | none => .error { message := "Number " ++ text ++ " is not a valid decimal number." }

/-- The sample `parseEther` does what is documented of it. -/
theorem sampleEther_documented : EtherDocumented sampleEther where
  numeral := by
    intro x hplaces
    simp only [sampleEther, String.toList_ofList, parse_text, if_pos hplaces]
  exponent := by
    intro text hmem
    unfold sampleEther
    cases hparse : Decimals.parse text.toList with
    | none => exact ⟨_, rfl⟩
    | some x =>
      rw [← text_of_parse hparse] at hmem
      rcases Numeral.mem_text hmem with hdigit | hpoint
      · cases hdigit
      · cases hpoint

/-- Three jobs on two addresses: what the funding job is given, and what the load test job is. -/
def threeJobs : AdhocWorkflow where
  jobs := 3
  environment := .dev
  paths := 2
  fund := true
  fundEnv :=
    { entries :=
        [("SIG_ETH_RPC_URL_SEPOLIA", "http://localhost:8545"),
          ("SIG_SOL_RPC_URL_DEV", "http://localhost:8899"), ("SIG_SOL_SK", "[1]"),
          ("SIG_BIDIRECTIONAL_FUNDING_SK", "0x01"), ("SIG_BIDIRECTIONAL_PATHS", "2"),
          ("SIG_SOL_ROOT_PUBLIC_KEY", ""), ("SIG_BIDIRECTIONAL_FUND_TOPUP_ETH", "0.002")]
      nodup := by decide }
  loadEnv :=
    { entries :=
        [("SIG_ETH_RPC_URL_SEPOLIA", "http://localhost:8545"),
          ("SIG_SOL_RPC_URL_DEV", "http://localhost:8899"), ("SIG_SOL_SK", "[1]"),
          ("SIG_BIDIRECTIONAL_PATHS", "2"), ("SIG_SOL_ROOT_PUBLIC_KEY", "")]
      nodup := by decide }

/-- The sample's environments are those the job builds. -/
theorem threeJobs_configured : threeJobs.Configured where
  shared := by decide +kernel
  paths := by decide +kernel
  secret := by decide +kernel
  network := by decide

/-- No variable of the funding step is refused. -/
theorem threeJobs_fund_reasons (v : Variable) :
    Form.reasons (v.check.run sampleZod (threeJobs.fundEnv.setting v)) = [] := by
  cases v <;> decide +kernel

/-- No variable of the service is refused. -/
theorem threeJobs_load_reasons (v : Variable) :
    Form.reasons (v.check.run sampleZod (threeJobs.loadEnv.setting v)) = [] := by
  cases v <;> decide +kernel

/-- What the variables of the funding job resolve to. -/
def threeJobsFund : Parsed := fun v => Form.valueOf _ (threeJobs_fund_reasons v)

/-- Likewise of the load test job. -/
def threeJobsLoad : Parsed := fun v => Form.valueOf _ (threeJobs_load_reasons v)

theorem parse_threeJobsFund : parse sampleZod threeJobs.fundEnv = .ok threeJobsFund :=
  parse_eq_ok_iff.mpr fun v => Form.ok_valueOf (threeJobs_fund_reasons v)

theorem parse_threeJobsLoad : parse sampleZod threeJobs.loadEnv = .ok threeJobsLoad :=
  parse_eq_ok_iff.mpr fun v => Form.ok_valueOf (threeJobs_load_reasons v)

/-- The default gas per run. -/
def threeJobsGas : Numeral where
  whole := ['0']
  fraction := ['0', '0', '0', '0', '2', '3', '4']
  whole_ne_nil := List.cons_ne_nil _ _
  isDigit_whole := by simp
  isDigit_fraction := by simp

/-- The band, which is below what the jobs need. -/
def threeJobsBand : Numeral where
  whole := ['0']
  fraction := ['0', '0', '2']
  whole_ne_nil := List.cons_ne_nil _ _
  isDigit_whole := by simp
  isDigit_fraction := by simp

/-- The sweep is given the floor and the gas of two jobs, and nothing where no funding was asked
    for. -/
theorem threeJobs_sweep_iff :
    threeJobs.sweep sampleZod sampleEther AdhocRun.threeJobsSetup.libs
        AdhocRun.threeJobsSweep.reads = some AdhocRun.threeJobsSweep ∧
      { threeJobs with fund := false }.sweep sampleZod sampleEther AdhocRun.threeJobsSetup.libs
        AdhocRun.threeJobsSweep.reads ≠ some AdhocRun.threeJobsSweep := by
  have henv : threeJobsFund.env sampleEther = .ok AdhocRun.threeJobsSweep.env := by decide +kernel
  have hgas : threeJobsGas.text = (threeJobsFund .gasPerRunEth).toList := by decide +kernel
  have hband : threeJobsBand.text = (threeJobsFund .fundTopUpEth).toList := by decide +kernel
  constructor
  · refine (sweep_iff sampleEther_documented parse_threeJobsFund henv hgas (by decide) hband
      2093600000000000).mpr ⟨⟨rfl, by decide +kernel⟩, by decide, ?_, by norm_num, by norm_num⟩
    decide +kernel
  · -- the step that is not asked to fund makes no run
    intro hrun
    have hrequested := ((sweep_iff (w := { threeJobs with fund := false }) sampleEther_documented
      parse_threeJobsFund henv hgas (by decide) hband 2093600000000000).mp hrun).1.1
    cases hrequested

/-- The service of the load test job has no wallet. -/
def threeJobsService : Setup :=
  { AdhocRun.threeJobsSetup with env := { AdhocRun.threeJobsSetup.env with funding := {} } }

/-- Its run, with the addresses filled to the target. -/
def threeJobsStart : FundedService :=
  .new threeJobsService 0 fun path =>
    AdhocRun.threeJobsHeld (deriveWorker threeJobsService.libs ⟨"dev", none, "[1]"⟩ path).address

/-- The first job has paid. -/
def threeJobsServed : FundedService :=
  (exec (FundedService.step threeJobsService) threeJobsStart FundedService.paidRun).getD
    threeJobsStart

/-- Three jobs on two paths, and a target printed for them: all have a record, and none failed for
    want of funds. -/
theorem threeJobs_none_starved : threeJobsServed.world.jobs.jobs ≠ [] ∧
    ∀ r ∈ threeJobsServed.world.jobs.jobs, r.failureReason ≠ some .allWorkersUnderfunded := by
  have hgas : threeJobsGas.text = (threeJobsFund .gasPerRunEth).toList := by decide +kernel
  have hrun : threeJobs.sweep sampleZod sampleEther AdhocRun.threeJobsSetup.libs
      AdhocRun.threeJobsSweep.reads = some AdhocRun.threeJobsSweep :=
    sweep_eq_some_iff.mpr ⟨⟨rfl, by decide +kernel⟩, threeJobsFund, "0.002093600000000000",
      AdhocRun.threeJobsSweep.env, 2093600000000000, parse_threeJobsFund, by decide +kernel,
      by decide +kernel, by decide +kernel, rfl⟩
  have hservice : threeJobs.service sampleZod sampleEther AdhocRun.threeJobsSetup.libs =
      some threeJobsService :=
    service_eq_some_iff.mpr ⟨threeJobsLoad, threeJobsService.env, parse_threeJobsLoad,
      by decide +kernel, rfl⟩
  have hexec : exec (FundedService.step threeJobsService) threeJobsStart FundedService.paidRun =
      some threeJobsServed := exec_getD (by decide +kernel) _
  have hreach : ReachableUnder (FundedService.step threeJobsService)
      (FundedService.Affordable threeJobsService
        (threeJobsGas.units 18 * (threeJobsFund .gasMargin : Nat))) threeJobsStart
      threeJobsServed :=
    .of_exec hexec (by decide +kernel)
  refine ⟨by decide +kernel, ?_⟩
  exact none_starved sampleZod_documented sampleEther_documented threeJobs_configured
    parse_threeJobsFund hgas (by decide) hrun hservice
    (fun solana _ => AdhocRun.threeJobs_distinct solana) AdhocRun.threeJobs_complete
    AdhocRun.threeJobs_held rfl hreach (by decide +kernel)

end AdhocWorkflow

end ContractPinger
