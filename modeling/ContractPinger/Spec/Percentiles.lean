import ContractPinger.ForStd.OrderStatistics
import ContractPinger.Model.Stats

/-!
# What a reported percentile is

`summarize` sorts, and reads its figures off the sorted values by position. So every figure
is one of the values, a percentile is the order statistic of its rank, and the order in which
the jobs stand in the store shows in none of them.

## Key results

- `percentileIndex_bounds`: the clamp never acts below the hundredth percentile
- `percentile_rank`: how many of the values are below a percentile, and how many are not above
- `percentiles_exact`: this, for every list, with the order of the figures among each other
-/

namespace ContractPinger

variable {values values' : List Millis} {p : ℚ}

@[simp] theorem length_ascending (values : List Millis) :
    (ascending values).length = values.length := (List.mergeSort_perm values _).length_eq

/-- Sorting sorts. -/
theorem sortedLE_ascending (values : List Millis) : (ascending values).SortedLE :=
  List.sortedLE_mergeSort

/-- And forgets the order. -/
theorem ascending_eq_of_perm (h : values.Perm values') : ascending values = ascending values' :=
  List.mergeSort_eq_of_perm h

/-- What the sorted list counts, the list counts. -/
theorem countP_ascending (values : List Millis) (q : Millis → Bool) :
    (ascending values).countP q = values.countP q := (List.mergeSort_perm values _).countP_eq q

/-- What stands in the sorted list was measured. -/
theorem mem_of_ascending {i : Nat} {v : Millis} (h : (ascending values)[i]? = some v) :
    v ∈ values :=
  (List.mergeSort_perm values _).mem_iff.mp (List.mem_of_getElem? h)

/-! ## The index -/

/-- Below the hundredth percentile the index is that of its share of the list, rounded down,
    and stays inside the list without the clamp. -/
theorem percentileIndex_bounds {length : Nat} (hlength : 0 < length) (hp₀ : 0 ≤ p)
    (hp₁ : p < 100) : percentileIndex length p < length ∧
      100 * (percentileIndex length p : ℚ) ≤ p * length ∧
      p * length < 100 * ((percentileIndex length p : ℚ) + 1) := by
  have hpos : (0 : ℚ) < length := by exact_mod_cast hlength
  have hshare : 0 ≤ p / 100 * length := by positivity
  have hbelow : p / 100 * length < length := by
    have hfraction : p / 100 < 1 := by linarith
    calc p / 100 * length < 1 * length := mul_lt_mul_of_pos_right hfraction hpos
      _ = length := one_mul _
  have hfloor : ⌊p / 100 * length⌋₊ < length := (Nat.floor_lt hshare).mpr hbelow
  -- so the clamp leaves the index alone
  have hindex : percentileIndex length p = ⌊p / 100 * length⌋₊ := by
    unfold percentileIndex
    omega
  have hle := Nat.floor_le hshare
  have hlt := Nat.lt_floor_add_one (p / 100 * length)
  rw [hindex]
  refine ⟨hfloor, ?_, ?_⟩
  · linarith
  · linarith

/-- A higher percentile stands no further to the front. -/
theorem percentileIndex_mono {q : ℚ} (length : Nat) (h : p ≤ q) :
    percentileIndex length p ≤ percentileIndex length q := by
  have hfloor : ⌊p / 100 * length⌋₊ ≤ ⌊q / 100 * length⌋₊ := by
    apply Nat.floor_le_floor
    gcongr
  unfold percentileIndex
  omega

/-- Of a list that is not empty the percentile is what stands at the index. -/
theorem percentile_eq {sorted : List Millis} (hne : sorted ≠ []) (p : ℚ) :
    percentile sorted p = sorted[percentileIndex sorted.length p]? := by
  have hlength : sorted.length ≠ 0 := by simpa using hne
  rw [percentile, if_neg hlength]

/-- Where anything was measured there is every percentile. -/
theorem percentile_isSome {sorted : List Millis} (hne : sorted ≠ []) (p : ℚ) :
    ∃ v, percentile sorted p = some v := by
  have hlength := List.length_pos_of_ne_nil hne
  have hlt : percentileIndex sorted.length p < sorted.length := by
    unfold percentileIndex
    omega
  rw [percentile_eq hne]
  exact ⟨_, List.getElem?_eq_getElem hlt⟩

/-- The percentile of values: one of them, with its share of the list at most below it and
    more than its share at or below it. -/
theorem percentile_rank (hne : values ≠ []) (hp₀ : 0 ≤ p) (hp₁ : p < 100) :
    ∃ v ∈ values, percentile (ascending values) p = some v ∧
      100 * ((values.countP fun x => decide (x < v) : Nat) : ℚ) ≤ p * values.length ∧
      p * values.length < 100 * ((values.countP fun x => decide (x ≤ v) : Nat) : ℚ) := by
  have hlength : 0 < values.length := List.length_pos_of_ne_nil hne
  have hsorted : ascending values ≠ [] := by
    intro hnil
    rw [← length_ascending, hnil] at hlength
    exact absurd hlength (Nat.lt_irrefl 0)
  obtain ⟨v, hv⟩ := percentile_isSome hsorted p
  have hindex := percentile_eq hsorted p
  rw [hv, length_ascending] at hindex
  obtain ⟨_, hle, hlt⟩ := percentileIndex_bounds hlength hp₀ hp₁
  -- the counts are taken in the sorted list, around the index
  have hbelow := (sortedLE_ascending values).countP_lt_le hindex.symm
  have hupto := (sortedLE_ascending values).lt_countP_le hindex.symm
  rw [countP_ascending] at hbelow hupto
  have hbelow' : ((values.countP fun x => decide (x < v) : Nat) : ℚ) ≤
      percentileIndex values.length p := by exact_mod_cast hbelow
  have hupto' : (percentileIndex values.length p : ℚ) + 1 ≤
      ((values.countP fun x => decide (x ≤ v) : Nat) : ℚ) := by exact_mod_cast hupto
  refine ⟨v, mem_of_ascending hindex.symm, hv, ?_, ?_⟩
  · linarith
  · linarith

/-! ## The figures of a summary -/

/-- A summary does not depend on the order of the measurements. -/
theorem summarize_eq_of_perm (h : values.Perm values') : summarize values = summarize values' := by
  rw [summarize, summarize, ascending_eq_of_perm h]

/-- Whatever order the jobs stand in, the same values are summarized. -/
theorem latencyStage_values_perm {jobs jobs' : List JobRecord} (h : jobs.Perm jobs')
    (stage : LatencyStage) : (stage.values jobs).Perm (stage.values jobs') := by
  cases stage with
  | totalMs => exact (h.filter _).filterMap _
  | _ => exact h.filterMap _

/-- Nor do the latencies on that of the records. -/
theorem latenciesFor_eq_of_perm {jobs jobs' : List JobRecord} (h : jobs.Perm jobs') :
    latenciesFor jobs = latenciesFor jobs' :=
  funext fun stage => summarize_eq_of_perm (latencyStage_values_perm h stage)

/-- Nothing is reported of no values. -/
theorem summarize_nil : summarize [] =
    { count := 0, min := none, p05 := none, p50 := none, p95 := none, max := none } := by
  simp [summarize, ascending, percentile]

/-- The five figures of values, in order. -/
theorem summarize_ordered (hne : values ≠ []) : ∃ min p05 p50 p95 max,
    summarize values =
      { count := values.length, min := some min, p05 := some p05, p50 := some p50,
        p95 := some p95, max := some max } ∧
      min ≤ p05 ∧ p05 ≤ p50 ∧ p50 ≤ p95 ∧ p95 ≤ max := by
  have hlength : 0 < values.length := List.length_pos_of_ne_nil hne
  -- all five are read off the sorted values, at positions that go up
  let figure (i : Nat) : Millis := (ascending values).getD i 0
  have hread : ∀ i < values.length, (ascending values)[i]? = some (figure i) := by
    intro i hi
    show _ = some ((ascending values).getD i 0)
    rw [List.getD_eq_getElem?_getD, List.getElem?_eq_getElem (by rwa [length_ascending])]
    rfl
  have hle : ∀ i j, i ≤ j → j ≤ values.length - 1 → figure i ≤ figure j := fun i j hij hj =>
    (sortedLE_ascending values).getElem?_le hij (hread i (by omega)) (hread j (by omega))
  have hlast : ∀ p, percentileIndex values.length p ≤ values.length - 1 := fun p =>
    Nat.min_le_left _ _
  have hpercentile : ∀ p, percentile (ascending values) p =
      some (figure (percentileIndex values.length p)) := by
    intro p
    have hp := hlast p
    rw [percentile, length_ascending, if_neg (by omega), hread _ (by omega)]
  refine ⟨figure 0, figure (percentileIndex values.length 5),
    figure (percentileIndex values.length 50), figure (percentileIndex values.length 95),
    figure (values.length - 1), ?_, hle _ _ (Nat.zero_le _) (hlast 5),
    hle _ _ (percentileIndex_mono _ (by norm_num)) (hlast 50),
    hle _ _ (percentileIndex_mono _ (by norm_num)) (hlast 95),
    hle _ _ (hlast 95) (Nat.le_refl _)⟩
  simp only [summarize, length_ascending, hpercentile, if_pos hlength, hread 0 hlength,
    hread (values.length - 1) (by omega)]

/-- The load driver reports the percentile that the server reports. -/
theorem loadtest_percentile_eq (values : List Millis) (p : ℚ) :
    Loadtest.percentile values p = percentile (ascending values) p := by
  simp only [Loadtest.percentile, percentile, percentileIndex, length_ascending]

/-- The reported percentiles are order statistics, do not depend on the order of the jobs, stand
    between the least and the greatest value, are missing together, and are those of the load
    driver. -/
theorem percentiles_exact :
    (∀ values : List Millis, values ≠ [] → ∀ p : ℚ, 0 ≤ p → p < 100 →
      ∃ v ∈ values, percentile (ascending values) p = some v ∧
        100 * ((values.countP fun x => decide (x < v) : Nat) : ℚ) ≤ p * values.length ∧
        p * values.length < 100 * ((values.countP fun x => decide (x ≤ v) : Nat) : ℚ)) ∧
    (∀ values values' : List Millis, values.Perm values' → summarize values = summarize values') ∧
    (∀ jobs jobs' : List JobRecord, jobs.Perm jobs' → latenciesFor jobs = latenciesFor jobs') ∧
    (∀ values : List Millis, values ≠ [] → ∃ min p05 p50 p95 max,
      summarize values =
        { count := values.length, min := some min, p05 := some p05, p50 := some p50,
          p95 := some p95, max := some max } ∧
        min ≤ p05 ∧ p05 ≤ p50 ∧ p50 ≤ p95 ∧ p95 ≤ max) ∧
    summarize [] =
      { count := 0, min := none, p05 := none, p50 := none, p95 := none, max := none } ∧
    ∀ (values : List Millis) (p : ℚ),
      Loadtest.percentile values p = percentile (ascending values) p :=
  ⟨fun _ hne _ hp₀ hp₁ => percentile_rank hne hp₀ hp₁, fun _ _ h => summarize_eq_of_perm h,
    fun _ _ h => latenciesFor_eq_of_perm h, fun _ hne => summarize_ordered hne, summarize_nil,
    loadtest_percentile_eq⟩

/-- Of three durations the median is the second, with one of them below it. -/
theorem percentiles_exact_of_three : ∃ v ∈ ([30, 10, 20] : List Millis),
    percentile (ascending [30, 10, 20]) 50 = some v ∧
      100 * ((([30, 10, 20] : List Millis).countP fun x => decide (x < v) : Nat) : ℚ) ≤
        50 * ([30, 10, 20] : List Millis).length ∧
      50 * ([30, 10, 20] : List Millis).length <
        100 * ((([30, 10, 20] : List Millis).countP fun x => decide (x ≤ v) : Nat) : ℚ) :=
  percentiles_exact.1 [30, 10, 20] (by decide) 50 (by norm_num) (by norm_num)

end ContractPinger
