import ContractPinger.ForStd.Except
import ContractPinger.ForStd.List
import ContractPinger.Model.EnvSchema

/-!
# What the environment schema accepts

A configuration is well formed if each of its values is one its check lets through. The process
starts with well-formed configurations only, and there is a process environment for each of
them: the one in which every value is written out, which `parse` reads back.

## Key results

- `parse_iff_wellFormed`: `parse` yields the well-formed configurations, and no others
- `parse_eq_error`: where it fails, it names every variable that is refused
-/

namespace ContractPinger

/-- `Number.MAX_SAFE_INTEGER`. -/
def maxSafeInteger : Nat := 9007199254740991

/-- What zod documents of its checks, as far as the schema relies on it: an integer is safe and
    within its bounds, and digits are read as the number they stand for; a URL that was accepted
    is accepted as it stands. -/
structure Zod.Documented (zod : Zod) : Prop where
  integer_range : ∀ {min max text n}, zod.integer min max text = .ok n →
    min ≤ n ∧ (∀ m ∈ max, n ≤ m) ∧ n ≤ maxSafeInteger
  integer_toString : ∀ {min max n k}, zod.integer min max (toString n) = .ok k ↔
    k = n ∧ min ≤ n ∧ (∀ m ∈ max, n ≤ m) ∧ n ≤ maxSafeInteger
  url_stable : ∀ {text value}, zod.url text = .ok value → zod.url value = .ok value ∧ value ≠ ""

/-! ## One check -/

namespace Check

variable {zod : Zod} {check : Check} {text : String} {value : check.Value} {n : Nat}

/-- A number is written with digits. -/
theorem isWhole_toString (n : Nat) : isWhole (toString n) = true := by
  simp only [isWhole, Nat.toString_eq_repr, Nat.toList_repr, Bool.and_eq_true, decide_eq_true_eq,
    List.all_eq_true]
  exact ⟨Nat.toDigits_ne_nil, fun _ => Nat.isDigit_of_mem_toDigits (by decide) (by decide)⟩

/-- And with one at least. -/
theorem toString_ne_empty (n : Nat) : toString n ≠ "" := by
  rw [Nat.toString_eq_repr]
  exact Nat.repr_ne_empty

/-- A value the check lets through. -/
def WellFormed (zod : Zod) : (check : Check) → check.Value → Prop
  | integer _ min max, n => min ≤ n ∧ (∀ m ∈ max, n ≤ m) ∧ n ≤ maxSafeInteger
  | optionalInteger min, value => ∀ n ∈ value, min ≤ n ∧ n ≤ maxSafeInteger
  | string _, text => text ≠ ""
  | optionalString, value => ∀ text ∈ value, text ≠ ""
  | optionalUrl, value => ∀ text ∈ value, zod.url text = .ok text ∧ text ≠ ""
  | optionalMatching pattern _, value => ∀ text ∈ value, pattern text = true ∧ text ≠ ""
  | eth _, text => isDecimal text = true ∧ text ≠ ""
  | wei _, _ => True
  | boolish _, _ => True
  | txMode _, _ => True
  | network _, _ => True

/-- The setting that says the value. -/
def print : (check : Check) → check.Value → Option String
  | integer _ _ _, n => some (toString (n : Nat))
  | optionalInteger _, value => value.map toString
  | string _, text => some text
  | optionalString, value => value
  | optionalUrl, value => value
  | optionalMatching _ _, value => value
  | wei _, n => some (toString (n : Nat))
  | eth _, text => some text
  | boolish _, value => some (if value then "true" else "false")
  | txMode _, mode => some mode.name
  | network _, e => some e.name

/-- No setting is empty: an empty one would count as absent. -/
theorem print_ne_empty (h : check.WellFormed zod value) (htext : text ∈ check.print value) :
    text ≠ "" := by
  cases check with
  | integer fallback min max =>
    obtain rfl := Option.some.inj htext
    exact toString_ne_empty _
  | optionalInteger min =>
    obtain ⟨n, -, rfl⟩ := Option.map_eq_some_iff.mp htext
    exact toString_ne_empty n
  | string fallback =>
    obtain rfl := Option.some.inj htext
    exact h
  -- a text that was accepted was set, and not to nothing
  | optionalString => exact h text htext
  | optionalUrl => exact (h text htext).2
  | optionalMatching pattern message => exact (h text htext).2
  | wei fallback =>
    obtain rfl := Option.some.inj htext
    exact toString_ne_empty _
  | eth fallback =>
    obtain rfl := Option.some.inj htext
    exact h.2
  | boolish fallback =>
    obtain rfl := Option.some.inj htext
    cases value <;> decide
  | txMode fallback =>
    obtain rfl := Option.some.inj htext
    cases value <;> decide
  | network fallback =>
    obtain rfl := Option.some.inj htext
    cases value <;> decide

/-- The check reads the value back. -/
theorem run_print (hz : zod.Documented) (h : check.WellFormed zod value) :
    check.run zod (check.print value) = .ok value := by
  cases check with
  | integer fallback min max => exact hz.integer_toString.mpr ⟨rfl, h⟩
  | optionalInteger min =>
    cases value with
    | none => rfl
    | some n =>
      have hn := h n rfl
      simp only [print, Option.map_some, run]
      rw [hz.integer_toString.mpr ⟨rfl, hn.1, by simp, hn.2⟩]
      rfl
  | string fallback => rfl
  | optionalString => rfl
  | optionalUrl =>
    cases value with
    | none => rfl
    | some text =>
      simp only [print, run]
      rw [(h text rfl).1]
      rfl
  | optionalMatching pattern message =>
    cases value with
    | none => rfl
    | some text =>
      simp only [print, run]
      rw [if_pos (h text rfl).1]
  | wei fallback =>
    -- a number of wei is read digit by digit
    refine (if_pos (isWhole_toString _)).trans (congrArg Except.ok ?_)
    simp only [print, Option.getD_some]
    rw [Nat.toString_eq_repr, Nat.toList_repr, Decimals.number_toDigits]
  | eth fallback => exact if_pos h.1
  | boolish fallback => cases value <;> rfl
  | txMode fallback => cases value <;> rfl
  | network fallback => cases value <;> rfl

/-- What a check makes of a setting is well formed. -/
theorem wellFormed_of_run (hz : zod.Documented) (htext : text ≠ "")
    (h : check.run zod (some text) = .ok value) : check.WellFormed zod value := by
  cases check with
  | integer fallback min max => exact hz.integer_range h
  | optionalInteger min =>
    simp only [run] at h
    obtain ⟨n, hn, rfl⟩ := Except.map_eq_ok_iff.mp h
    intro m hm
    obtain rfl := Option.some.inj hm
    exact ⟨(hz.integer_range hn).1, (hz.integer_range hn).2.2⟩
  | string fallback =>
    obtain rfl := Except.ok.inj h
    exact htext
  | optionalString =>
    obtain rfl := Except.ok.inj h
    intro t ht
    obtain rfl := Option.some.inj ht
    exact htext
  | optionalUrl =>
    simp only [run] at h
    obtain ⟨url, hurl, rfl⟩ := Except.map_eq_ok_iff.mp h
    intro t ht
    obtain rfl := Option.some.inj ht
    -- `new URL` may have changed the text, to one it accepts as it stands
    exact hz.url_stable hurl
  | optionalMatching pattern message =>
    simp only [run] at h
    split at h
    · rename_i hmatch
      obtain rfl := Except.ok.inj h
      intro t ht
      obtain rfl := Option.some.inj ht
      exact ⟨hmatch, htext⟩
    · cases h
  | eth fallback =>
    simp only [run, Option.getD_some] at h
    split at h
    · rename_i hdecimal
      obtain rfl := Except.ok.inj h
      exact ⟨hdecimal, htext⟩
    · cases h
  | wei fallback => trivial
  | boolish fallback => trivial
  | txMode fallback => trivial
  | network fallback => trivial

/-- The default passes the check that it stands in for. -/
def soundDefault : Check → Bool
  | integer fallback min max =>
    min ≤ fallback && max.all (fun m => decide (fallback ≤ m)) && fallback ≤ maxSafeInteger
  | string fallback => fallback ≠ ""
  | eth fallback => isDecimal fallback && fallback ≠ ""
  | _ => true

/-- What a check makes of an absent setting is well formed, if its default is. -/
theorem wellFormed_of_default (hdefault : check.soundDefault = true)
    (h : check.run zod none = .ok value) : check.WellFormed zod value := by
  cases check with
  | integer fallback min max =>
    obtain rfl := Except.ok.inj h
    simp only [soundDefault, Bool.and_eq_true, decide_eq_true_eq, Option.all_eq_true] at hdefault
    exact ⟨hdefault.1.1, hdefault.1.2, hdefault.2⟩
  | string fallback =>
    obtain rfl := Except.ok.inj h
    simp only [soundDefault, decide_eq_true_eq] at hdefault
    exact hdefault
  | eth fallback =>
    simp only [soundDefault, Bool.and_eq_true, decide_eq_true_eq] at hdefault
    obtain rfl := Except.ok.inj ((if_pos hdefault.1).symm.trans h)
    exact hdefault
  -- what is optional is absent, and so well formed
  | optionalInteger min =>
    obtain rfl := Except.ok.inj h
    intro n hn
    cases hn
  | optionalString =>
    obtain rfl := Except.ok.inj h
    intro n hn
    cases hn
  | optionalUrl =>
    obtain rfl := Except.ok.inj h
    intro n hn
    cases hn
  | optionalMatching pattern message =>
    obtain rfl := Except.ok.inj h
    intro n hn
    cases hn
  | wei fallback => trivial
  | boolish fallback => trivial
  | txMode fallback => trivial
  | network fallback => trivial

end Check

/-- Every default of the schema passes its own check. -/
theorem Variable.soundDefault (v : Variable) : v.check.soundDefault = true := by
  cases v <;> decide +kernel

/-! ## The process environment -/

namespace ProcessEnv

variable {env : ProcessEnv} {v : Variable} {text : String}

/-- The schema sees the values that are not empty. -/
theorem setting_eq_some_iff :
    env.setting v = some text ↔ (v.name, text) ∈ env.entries ∧ text ≠ "" := by
  rw [setting, List.lookup_eq_some_iff_mem env.withoutEmptyValues.nodup, withoutEmptyValues,
    List.mem_filter, decide_eq_true_eq]

end ProcessEnv

namespace Parsed

variable {zod : Zod} {parsed : Parsed} {v : Variable}

/-- A configuration of which every value is well formed. -/
def WellFormed (zod : Zod) (parsed : Parsed) : Prop :=
  ∀ v : Variable, v.check.WellFormed zod (parsed v)

/-- Every value, written out under its name. -/
def settings (parsed : Parsed) : List (String × String) :=
  Variable.all.filterMap fun v => (v.check.print (parsed v)).map fun text => (v.name, text)

/-- A setting is written out for a variable just where its value prints to one. -/
theorem mem_settings_iff {text : String} :
    (v.name, text) ∈ parsed.settings ↔ v.check.print (parsed v) = some text := by
  simp only [settings, List.mem_filterMap, Option.map_eq_some_iff, Prod.mk.injEq]
  constructor
  · rintro ⟨w, -, _, hprint, hname, rfl⟩
    obtain rfl := Variable.name_injective hname
    exact hprint
  · intro hprint
    exact ⟨v, v.mem_all, text, hprint, rfl, rfl⟩

/-- No name is written out twice. -/
theorem nodup_settings (parsed : Parsed) : (parsed.settings.map Prod.fst).Nodup := by
  have hnames : (parsed.settings.map Prod.fst).Sublist (Variable.all.map Variable.name) := by
    unfold settings
    induction Variable.all with
    | nil => exact .slnil
    | cons v rest ih =>
      cases hprint : v.check.print (parsed v) with
      | none =>
        simp only [List.filterMap_cons, hprint, Option.map_none, List.map_cons]
        exact ih.cons _
      | some text =>
        simp only [List.filterMap_cons, hprint, Option.map_some, List.map_cons]
        exact ih.cons_cons _
  exact hnames.nodup (List.Nodup.map Variable.name_injective (by decide))

/-- The process environment that sets every value. -/
def render (parsed : Parsed) : ProcessEnv where
  entries := parsed.settings
  nodup := parsed.nodup_settings

/-- The schema sees what was written out. -/
theorem setting_render (h : parsed.WellFormed zod) :
    parsed.render.setting v = v.check.print (parsed v) := by
  refine Option.ext fun text => ?_
  rw [ProcessEnv.setting_eq_some_iff, render, mem_settings_iff]
  constructor
  · exact And.left
  · intro hprint
    exact ⟨hprint, Check.print_ne_empty (h v) hprint⟩

end Parsed

/-! ## Parsing -/

section Parse

variable {zod : Zod} {env : ProcessEnv} {parsed : Parsed}

/-- A process starts with the configuration whose values its checks come to. -/
theorem parse_eq_ok_iff :
    parse zod env = .ok parsed ↔
      ∀ v : Variable, v.check.run zod (env.setting v) = .ok (parsed v) := by
  have hread : (schema zod).read env.setting = .ok parsed ↔
      ∀ v : Variable, v.check.run zod (env.setting v) = .ok (parsed v) := Form.read_eq_ok_iff
  refine Iff.trans ?_ hread
  unfold parse
  cases hparsed : (schema zod).read env.setting <;> simp

/-- The error has a line for every issue of every variable that is refused, and no others, in the
    order of the schema. -/
theorem parse_eq_error {message : String} (h : parse zod env = .error message) :
    ∃ issues : List (Variable × String), issues ≠ [] ∧
      message = "Invalid environment configuration:\n" ++
        String.intercalate "\n" (issues.map fun i => "  - " ++ i.1.name ++ ": " ++ i.2) ∧
      (∀ v reason, (v, reason) ∈ issues ↔
        reason ∈ Form.reasons (v.check.run zod (env.setting v))) ∧
      issues.Pairwise fun a b => Variable.all.idxOf a.1 ≤ Variable.all.idxOf b.1 := by
  unfold parse at h
  cases hread : (schema zod).read env.setting with
  | ok parsed =>
    rw [hread] at h
    cases h
  | error issues =>
    rw [hread] at h
    obtain ⟨hne, rfl⟩ := Form.read_eq_error_iff.mp hread
    -- the issues stand in the order of the keys
    have horder : Variable.all.Pairwise fun v w =>
        Variable.all.idxOf v ≤ Variable.all.idxOf w := by decide
    refine ⟨_, hne, (Except.error.inj h).symm, fun _ _ => Form.mem_issues_iff, ?_⟩
    exact Form.pairwise_issues (r := fun v w => Variable.all.idxOf v ≤ Variable.all.idxOf w)
      (fun _ => Nat.le_refl _) horder

/-- A variable that is set alike resolves alike. -/
theorem parse_congr {env' : ProcessEnv} {parsed' : Parsed} {v : Variable}
    (h : parse zod env = .ok parsed) (h' : parse zod env' = .ok parsed')
    (hset : env.setting v = env'.setting v) : parsed v = parsed' v := by
  have hrun := parse_eq_ok_iff.mp h v
  rw [hset, parse_eq_ok_iff.mp h' v] at hrun
  exact (Except.ok.inj hrun).symm

/-- What it starts with is well formed. -/
theorem parse_wellFormed (hz : zod.Documented) (h : parse zod env = .ok parsed) :
    parsed.WellFormed zod := by
  intro v
  have hrun := parse_eq_ok_iff.mp h v
  cases hset : env.setting v with
  | none =>
    rw [hset] at hrun
    exact Check.wellFormed_of_default v.soundDefault hrun
  | some text =>
    rw [hset] at hrun
    exact Check.wellFormed_of_run hz (ProcessEnv.setting_eq_some_iff.mp hset).2 hrun

/-- A configuration that is written out is read back. -/
theorem parse_render (hz : zod.Documented) (h : parsed.WellFormed zod) :
    parse zod parsed.render = .ok parsed := by
  rw [parse_eq_ok_iff]
  intro v
  rw [Parsed.setting_render h]
  exact Check.run_print hz (h v)

/-- The process starts with the well-formed configurations, and with no others: those that come
    back when they are written out. -/
theorem parse_iff_wellFormed (hz : zod.Documented) (parsed : Parsed) :
    ((∃ env, parse zod env = .ok parsed) ↔ parsed.WellFormed zod) ∧
      (parse zod parsed.render = .ok parsed ↔ parsed.WellFormed zod) := by
  constructor
  · constructor
    · rintro ⟨env, h⟩
      exact parse_wellFormed hz h
    · intro h
      exact ⟨parsed.render, parse_render hz h⟩
  · constructor
    · exact parse_wellFormed hz
    · exact parse_render hz

end Parse

/-! ## A sample environment -/

/-- A zod that reads no integers but rows of digits, and takes every text for a URL. -/
def sampleZod : Zod where
  integer min max text :=
    let n := Decimals.number text.toList
    if Check.isWhole text ∧ min ≤ n ∧ max.all (fun m => decide (n ≤ m)) ∧ n ≤ maxSafeInteger then
      .ok n
    else Check.refuse "Invalid input: expected number"
  url text := if text = "" then Check.refuse "Invalid URL" else .ok text
  invalidOption options _ :=
    "Invalid option: expected one of " ++ String.intercalate "|" options

/-- The sample zod does what is documented of it. -/
theorem sampleZod_documented : sampleZod.Documented where
  integer_range := by
    intro min max text n h
    simp only [sampleZod] at h
    split at h
    · rename_i hrange
      obtain rfl := Except.ok.inj h
      obtain ⟨-, hmin, hmax, hsafe⟩ := hrange
      rw [Option.all_eq_true] at hmax
      exact ⟨hmin, fun m hm => of_decide_eq_true (hmax m hm), hsafe⟩
    · cases h
  integer_toString := by
    intro min max n k
    -- the sample reads the digits of a number as that number
    have hnumber : Decimals.number (toString n).toList = n := by
      rw [Nat.toString_eq_repr, Nat.toList_repr, Decimals.number_toDigits]
    simp only [sampleZod, hnumber, Check.isWhole_toString, Option.all_eq_true, decide_eq_true_eq,
      true_and]
    split
    · rename_i hrange
      rw [Except.ok.injEq]
      constructor
      · rintro rfl
        exact ⟨rfl, hrange⟩
      · rintro ⟨rfl, -⟩
        rfl
    · rename_i hrange
      constructor
      · intro h
        cases h
      · rintro ⟨-, h⟩
        exact absurd h hrange
  url_stable := by
    intro text value h
    simp only [sampleZod] at h ⊢
    split at h
    · cases h
    · rename_i hne
      obtain rfl := Except.ok.inj h
      exact ⟨if_neg hne, hne⟩

/-- An environment with a root key, a URL, a token and a respond timeout, and a port left empty. -/
def sampleEnv : ProcessEnv where
  entries :=
    [("PORT", ""),
      ("SIG_ETH_RPC_URL_SEPOLIA", "http://localhost:8545"),
      ("SIG_SOL_ROOT_PUBLIC_KEY", "04" ++ String.ofList (List.replicate 128 'a')),
      ("SIG_BIDIRECTIONAL_ERC20_ADDRESS", "0x1c7D4B196Cb0C7B01d743Fbc6116a902379C7238"),
      ("SIG_BIDIRECTIONAL_RESPOND_TIMEOUT_MS", "600000")]
  nodup := by decide

/-- No variable of the sample is refused. -/
theorem sampleEnv_accepted (v : Variable) :
    Form.reasons (v.check.run sampleZod (sampleEnv.setting v)) = [] := by
  cases v <;> decide +kernel

/-- The configuration it resolves to. -/
def sampleParsed : Parsed := fun v => Form.valueOf _ (sampleEnv_accepted v)

/-- What is set is resolved to that and the rest to the defaults; and with all of it written out
    the process starts alike. -/
theorem sampleEnv_rendered : parse sampleZod sampleEnv = .ok sampleParsed ∧
    sampleParsed .port = (3001 : Nat) ∧
    sampleParsed .ethRpcUrlSepolia = some "http://localhost:8545" ∧
    sampleParsed .solRootPublicKey = some ("04" ++ String.ofList (List.replicate 128 'a')) ∧
    sampleParsed .erc20Address = some "0x1c7D4B196Cb0C7B01d743Fbc6116a902379C7238" ∧
    sampleParsed.respondTimeout = 600000 ∧
    parse sampleZod sampleParsed.render = .ok sampleParsed := by
  have hparse : parse sampleZod sampleEnv = .ok sampleParsed :=
    parse_eq_ok_iff.mpr fun v => Form.ok_valueOf (sampleEnv_accepted v)
  have hiff := parse_iff_wellFormed sampleZod_documented sampleParsed
  refine ⟨hparse, ?_, ?_, ?_, ?_, ?_, hiff.2.mpr (hiff.1.mp ⟨_, hparse⟩)⟩
  all_goals decide +kernel

end ContractPinger
