import ContractPinger.ForStd.SlidingWindow
import ContractPinger.Model.RateLimiter

/-!
# Arrival slots

A slot of the limiter is the instant of a call it let pass; it expires when a whole window
has gone by. The limiter forgets expired slots off the front of its list only, whenever it
is asked anything, so the slots that still count are read off with `unexpired`.

## Key results

- `tryAcquire_true` / `tryAcquire_false`: what a call does to the slots, in any state
- `Remembers.tryAcquire`: while the clock does not go back, the limiter decides as if it
  remembered every call it ever let pass
-/

namespace ContractPinger

open SlidingWindow

namespace RateLimiter

variable {limiter limiter' : RateLimiter} {accepted : List Millis} {now now' : Millis}

/-- The slots that a whole window has not gone by since. -/
def unexpired (limiter : RateLimiter) (now : Millis) : List Millis :=
  within limiter.windowMs now limiter.hits

@[simp] theorem prune_limit : (limiter.prune now).limit = limiter.limit := rfl

@[simp] theorem prune_windowMs : (limiter.prune now).windowMs = limiter.windowMs := rfl

@[simp] theorem prune_unexpired : (limiter.prune now).unexpired now = limiter.unexpired now :=
  within_dropWhile limiter.hits

@[simp] theorem used_snd : (limiter.used now).2 = limiter.prune now := rfl

@[simp] theorem retryAfterMs_snd : (limiter.retryAfterMs now).2 = limiter.prune now := rfl

/-- A call that is refused leaves the slots alone. -/
theorem tryAcquire_false (h : limiter.tryAcquire now = (false, limiter')) :
    limiter' = limiter.prune now ∧ limiter.limit ≤ (limiter.prune now).hits.length := by
  unfold tryAcquire at h
  dsimp only at h
  split at h
  · rename_i hfull
    exact ⟨(congrArg Prod.snd h).symm, hfull⟩
  · cases congrArg Prod.fst h

/-- A call that passes takes one slot, at the current instant. -/
theorem tryAcquire_true (h : limiter.tryAcquire now = (true, limiter')) :
    limiter' = { limiter.prune now with hits := (limiter.prune now).hits ++ [now] } ∧
      (limiter.prune now).hits.length < limiter.limit := by
  unfold tryAcquire at h
  dsimp only at h
  split at h
  · cases congrArg Prod.fst h
  · rename_i hroom
    have hlt : (limiter.prune now).hits.length < limiter.limit := Nat.lt_of_not_le hroom
    exact ⟨(congrArg Prod.snd h).symm, hlt⟩

/-- A call let through takes the newest of the slots. -/
theorem tryAcquire_unexpired (hwindow : 0 < limiter.windowMs)
    (h : limiter.tryAcquire now = (true, limiter')) :
    limiter'.unexpired now = limiter.unexpired now ++ [now] := by
  rw [(tryAcquire_true h).1]
  show within limiter.windowMs now ((limiter.prune now).hits ++ [now]) = _
  rw [within_concat hwindow]
  have hprune : (limiter.prune now).unexpired now = limiter.unexpired now := prune_unexpired
  exact congrArg (· ++ [now]) hprune

/-- The limiter knows of every accepted call that may still count, and no window of those
    calls has ever held more than its limit. -/
structure Remembers (limiter : RateLimiter) (accepted : List Millis) (now : Millis) : Prop where
  window : 0 < limiter.windowMs
  ordered : accepted.Pairwise (· ≤ ·)
  past : ∀ t ∈ accepted, t ≤ now
  hits : ∃ pruned ≤ now, limiter.hits = within limiter.windowMs pruned accepted
  bounded : Bounded limiter.limit limiter.windowMs accepted

/-- A new limiter has nothing to remember. -/
theorem remembers_new {limit : Nat} {windowMs : Millis} (h : 0 < windowMs) (now : Millis) :
    Remembers { limit, windowMs } [] now where
  window := h
  ordered := List.Pairwise.nil
  past _ ht := nomatch ht
  hits := ⟨now, Int.le_refl now, rfl⟩
  bounded _ := Nat.zero_le _

namespace Remembers

/-- Time passing takes nothing from the memory. -/
theorem later (h : limiter.Remembers accepted now) (hnow : now ≤ now') :
    limiter.Remembers accepted now' where
  window := h.window
  ordered := h.ordered
  past t ht := Int.le_trans (h.past t ht) hnow
  hits := by
    obtain ⟨pruned, hpruned, hhits⟩ := h.hits
    exact ⟨pruned, Int.le_trans hpruned hnow, hhits⟩
  bounded := h.bounded

/-- What pruning leaves is the window over every accepted call. -/
theorem prune_hits (h : limiter.Remembers accepted now) :
    (limiter.prune now).hits = within limiter.windowMs now accepted := by
  obtain ⟨pruned, hpruned, hhits⟩ := h.hits
  -- what is left of an ordered log is ordered, so pruning finds everything that expired
  have hordered : limiter.hits.Pairwise (· ≤ ·) := by
    rw [hhits]
    exact h.ordered.sublist List.filter_sublist
  show (limiter.hits.dropWhile fun t => decide (t ≤ now - limiter.windowMs)) = _
  rw [dropWhile_eq_within hordered, hhits, within_within hpruned]

/-- Pruning drops only what no longer counts. -/
theorem prune (h : limiter.Remembers accepted now) :
    (limiter.prune now).Remembers accepted now where
  window := h.window
  ordered := h.ordered
  past := h.past
  hits := ⟨now, Int.le_refl now, h.prune_hits⟩
  bounded := h.bounded

/-- A call that passes is remembered. -/
theorem tryAcquire (h : limiter.Remembers accepted now)
    (hpass : limiter.tryAcquire now = (true, limiter')) :
    limiter'.Remembers (accepted ++ [now]) now := by
  -- there was room in the window, and the slot is taken at its end
  obtain ⟨rfl, hroom⟩ := tryAcquire_true hpass
  rw [h.prune_hits] at hroom
  refine ⟨h.window, ?_, ?_, ⟨now, Int.le_refl now, ?_⟩, h.bounded.concat hroom⟩
  · refine List.pairwise_append.mpr ⟨h.ordered, List.pairwise_singleton _ _, ?_⟩
    intro t ht u hu
    rw [List.mem_singleton.mp hu]
    exact h.past t ht
  · intro t ht
    rcases List.mem_append.mp ht with ht | ht
    · exact h.past t ht
    · exact Int.le_of_eq (List.mem_singleton.mp ht)
  · show (limiter.prune now).hits ++ [now] = within limiter.windowMs now (accepted ++ [now])
    rw [within_concat h.window, h.prune_hits]

end Remembers

end RateLimiter

end ContractPinger
