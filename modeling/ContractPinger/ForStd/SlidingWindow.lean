import Mathlib

/-!
# Sliding windows over a log of instants

A log lists the instants at which something happened, in order. Whoever may only let it
happen `limit` times in any window of a given width need not keep the whole log: what has
left the window once will not come back, as long as the clock does not go back.

Windows are half-open: the one of `width` that ends at `now` holds the instants `t` with
`now - width < t`.

## Key results

- `dropWhile_eq_within`: dropping what is too old off the front of an ordered log leaves the
  window
- `length_within_lt_iff`: a full window has room again when its oldest instant leaves it
- `Bounded.concat`: adding an instant when its window has room keeps every window bounded
- `room_iff_delay_le`: `delay` is the least wait after which the window has room
-/

namespace SlidingWindow

variable {width now now' : Int} {limit : Nat} {log : List Int}

/-- The instants of the log in the window that ends at `now`, and those after it. -/
def within (width now : Int) (log : List Int) : List Int :=
  log.filter fun t => decide (now - width < t)

/-- Every window of the log holds at most `limit` instants. -/
def Bounded (limit : Nat) (width : Int) (log : List Int) : Prop :=
  ∀ x, (log.countP fun t => decide (x < t ∧ t ≤ x + width)) ≤ limit

/-- What is dropped for being too old is in no window from now on. -/
theorem within_dropWhile (log : List Int) :
    within width now (log.dropWhile fun t => decide (t ≤ now - width)) = within width now log := by
  induction log with
  | nil => rfl
  | cons t rest ih =>
    rw [List.dropWhile_cons]
    split
    · rename_i hold
      -- dropped, and not in the window either
      have hout : ¬ now - width < t := by
        have hle := of_decide_eq_true hold
        omega
      rw [ih]
      simp [within, hout]
    · rfl

/-- In an ordered log the instants too old come first. -/
theorem dropWhile_eq_within (hordered : log.Pairwise (· ≤ ·)) :
    (log.dropWhile fun t => decide (t ≤ now - width)) = within width now log := by
  induction log with
  | nil => rfl
  | cons t rest ih =>
    obtain ⟨hfirst, hrest⟩ := List.pairwise_cons.mp hordered
    rw [List.dropWhile_cons]
    split
    · rename_i hold
      have hout : ¬ now - width < t := by
        have hle := of_decide_eq_true hold
        omega
      rw [ih hrest]
      simp [within, hout]
    · rename_i hnew
      have hin : now - width < t := by
        simp only [decide_eq_true_eq] at hnew
        omega
      -- the first one kept is in the window, and the rest are no older
      have hall : ∀ u ∈ t :: rest, decide (now - width < u) = true := by
        intro u hu
        rcases List.mem_cons.mp hu with rfl | hu
        · simp [hin]
        · have hle := hfirst u hu
          simp only [decide_eq_true_eq]
          omega
      exact (List.filter_eq_self.mpr hall).symm

/-- A later window is a window of an earlier one. -/
theorem within_within (hnow : now ≤ now') :
    within width now' (within width now log) = within width now' log := by
  rw [within, within, within, List.filter_filter]
  refine List.filter_congr fun t _ => ?_
  -- the later window starts no earlier
  by_cases hin : now' - width < t
  · have hearlier : now - width < t := by omega
    simp [hin, hearlier]
  · simp [hin]

/-- The window that ends at `now` gains the instant `now`. -/
theorem within_concat (hwidth : 0 < width) :
    within width now (log ++ [now]) = within width now log ++ [now] := by
  have hin : now - width < now := by omega
  simp [within, hin]

/-- The window shrinks as soon as the oldest instant in it has left. -/
theorem length_within_lt_iff {first : Int} {rest : List Int} (hordered : log.Pairwise (· ≤ ·))
    (hnow : now ≤ now') (hwindow : within width now log = first :: rest) :
    (within width now' log).length < (within width now log).length ↔ first ≤ now' - width := by
  have hsorted : (first :: rest).Pairwise (· ≤ ·) := by
    rw [← hwindow]
    exact hordered.sublist List.filter_sublist
  have hfirst := (List.pairwise_cons.mp hsorted).1
  rw [← within_within hnow, hwindow, within, List.length_filter_lt_length_iff_exists]
  constructor
  · rintro ⟨t, ht, hout⟩
    simp only [decide_eq_true_eq] at hout
    -- whichever has left, the oldest has left with it or before
    cases List.mem_cons.mp ht with
    | inl heq => omega
    | inr hrest =>
      have hle := hfirst t hrest
      omega
  · intro hle
    have hout : ¬ decide (now' - width < first) = true := by
      simp only [decide_eq_true_eq]
      omega
    exact ⟨first, List.mem_cons_self, hout⟩

/-- The window that ends at `now` is bounded when nothing happened later. -/
theorem Bounded.within_length_le (h : Bounded limit width log) (hpast : ∀ t ∈ log, t ≤ now) :
    (within width now log).length ≤ limit := by
  rw [within, ← List.countP_eq_length_filter]
  refine Nat.le_trans (List.countP_mono_left fun t ht hin => ?_) (h (now - width))
  have hle := hpast t ht
  simp only [decide_eq_true_eq] at hin ⊢
  omega

/-- A log that grows at an instant whose window has room stays bounded. -/
theorem Bounded.concat (h : Bounded limit width log)
    (hroom : (within width now log).length < limit) : Bounded limit width (log ++ [now]) := by
  intro x
  rw [List.countP_append]
  by_cases hin : x < now ∧ now ≤ x + width
  · -- a window around `now` that reaches back no further than the one ending at `now`
    have hle : (log.countP fun t => decide (x < t ∧ t ≤ x + width)) ≤
        (within width now log).length := by
      rw [within, ← List.countP_eq_length_filter]
      refine List.countP_mono_left fun t _ ht => ?_
      simp only [decide_eq_true_eq] at ht ⊢
      omega
    have hone : [now].countP (fun t => decide (x < t ∧ t ≤ x + width)) ≤ 1 :=
      List.countP_le_length
    omega
  · have hnone : [now].countP (fun t => decide (x < t ∧ t ≤ x + width)) = 0 := by
      simp [hin]
    have hbound := h x
    omega

/-- A log of which every window is empty is empty. -/
theorem Bounded.eq_nil (h : Bounded 0 width log) (hwidth : 0 < width) : log = [] := by
  rw [List.eq_nil_iff_forall_not_mem]
  intro t ht
  -- an entry is in the window that begins just before it
  have hnone := Nat.le_zero.mp (h (t - 1))
  rw [List.countP_eq_zero] at hnone
  have hout := hnone t ht
  simp only [decide_eq_true_eq] at hout
  omega

/-! ## Waiting for room -/

/-- How long after `now` the window has room for one more. -/
def delay (limit : Nat) (width now : Int) (log : List Int) : Int :=
  if (within width now log).length < limit then 0
  else max 0 ((within width now log).headD 0 + width - now)

/-- With room in the window there is no delay. -/
theorem delay_of_room (h : (within width now log).length < limit) :
    delay limit width now log = 0 := by
  rw [delay, if_pos h]

/-- In a full window one waits for the oldest entry to leave it. -/
theorem delay_of_full {first : Int} {rest : List Int}
    (hwindow : within width now log = first :: rest)
    (hfull : limit ≤ (within width now log).length) :
    delay limit width now log = max 0 (first + width - now) := by
  rw [delay, if_neg (by omega), hwindow, List.headD_cons]

/-- One is never told to wait a negative time. -/
theorem delay_nonneg (limit : Nat) (width now : Int) (log : List Int) :
    0 ≤ delay limit width now log := by
  unfold delay
  split <;> omega

/-- Nobody waits for longer than a window. -/
theorem delay_le (hwidth : 0 < width) (hlimit : 0 < limit) (hpast : ∀ t ∈ log, t ≤ now) :
    delay limit width now log ≤ width := by
  by_cases hroom : (within width now log).length < limit
  · rw [delay_of_room hroom]
    omega
  · cases hcons : within width now log with
    | nil =>
      rw [hcons, List.length_nil] at hroom
      omega
    | cons first rest =>
      rw [delay_of_full hcons (by omega)]
      have hmem : first ∈ within width now log := by simp [hcons]
      have hle := hpast first (List.mem_filter.mp hmem).1
      omega

/-- As long as the log does not grow, its window has room from `delay` on and not before. -/
theorem room_iff_delay_le (hlimit : 0 < limit) (hordered : log.Pairwise (· ≤ ·))
    (hpast : ∀ t ∈ log, t ≤ now) (hbounded : Bounded limit width log) {e : Int} (he : 0 ≤ e) :
    (within width (now + e) log).length < limit ↔ delay limit width now log ≤ e := by
  by_cases hroom : (within width now log).length < limit
  · -- the window at `now + e` is part of the one at `now`
    have hshrinks : (within width (now + e) log).length ≤ (within width now log).length := by
      rw [← within_within (show now ≤ now + e by omega)]
      exact List.length_filter_le _ _
    rw [delay_of_room hroom]
    omega
  · cases hcons : within width now log with
    | nil =>
      rw [hcons, List.length_nil] at hroom
      omega
    | cons first rest =>
      have hfull := hbounded.within_length_le hpast
      have hshrinks := length_within_lt_iff hordered (show now ≤ now + e by omega) hcons
      have hmem : first ∈ within width now log := by simp [hcons]
      -- full, so exactly `limit` instants: there is room as soon as the oldest one leaves
      have hin := of_decide_eq_true (List.mem_filter.mp hmem).2
      rw [delay_of_full hcons (by omega)]
      omega

end SlidingWindow
