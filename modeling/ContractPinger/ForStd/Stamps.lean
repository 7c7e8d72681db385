import Mathlib

/-!
# Rows of optional stamps

A process that passes through stages in a fixed order leaves a row of stamps, one place
for each stage, with gaps where a stage was never reached. A row that is only ever
stamped with the current time, at a place no stage has been stamped at or beyond, stays
in order.
-/

namespace Stamps

variable {α : Type*} [Preorder α]

/-- Where both stamps are present, the first is not later than the second. -/
def Le (a b : Option α) : Prop := ∀ x ∈ a, ∀ y ∈ b, x ≤ y

/-- A row in order, with no stamp after `now` and none from place `n` on. -/
structure Upto (n : Nat) (now : α) (row : List (Option α)) : Prop where
  ordered : row.Pairwise Le
  past : ∀ a ∈ row, Le a (some now)
  blank : ∀ a ∈ row.drop n, a = none

variable {n m k : Nat} {now now' : α} {row : List (Option α)}

/-- Time passing keeps a row in order. -/
theorem Upto.later (h : Upto n now row) (hnow : now ≤ now') : Upto n now' row where
  ordered := h.ordered
  past a ha x hx y hy := by
    have hle := h.past a ha x hx now rfl
    rw [← Option.some.inj hy]
    exact le_trans hle hnow
  blank := h.blank

/-- A row filled up to one place is filled no further than a later one. -/
theorem Upto.mono (h : Upto n now row) (hnm : n ≤ m) : Upto m now row where
  ordered := h.ordered
  past := h.past
  blank a ha := by
    rw [show m = n + (m - n) by omega, ← List.drop_drop] at ha
    exact h.blank a (List.mem_of_mem_drop ha)

/-- Stamping a blank place with the current time keeps the row in order. -/
theorem Upto.stamp (h : Upto n now row) (hk : n ≤ k) :
    Upto (k + 1) now (row.set k (some now)) := by
  have hblank : ∀ a ∈ row.drop (k + 1), a = none := (h.mono (Nat.le_succ_of_le hk)).blank
  refine ⟨?_, ?_, ?_⟩
  · rw [List.set_eq_take_append_cons_drop]
    split
    · have hparts := h.ordered
      rw [← List.take_append_drop k row, List.pairwise_append] at hparts
      refine List.pairwise_append.mpr ⟨hparts.1, List.pairwise_cons.mpr ⟨?_, ?_⟩, ?_⟩
      · -- nothing is stamped after place `k`
        intro b hb x _ y hy
        rw [hblank b hb] at hy
        cases hy
      · exact h.ordered.sublist (List.drop_sublist _ _)
      · -- every stamp before place `k` is in the past, as is the new one
        intro a ha b hb
        rcases List.mem_cons.mp hb with rfl | hb
        · exact h.past a (List.mem_of_mem_take ha)
        · intro x _ y hy
          rw [hblank b hb] at hy
          cases hy
    · exact h.ordered
  · intro a ha
    rcases List.mem_or_eq_of_mem_set ha with ha | rfl
    · exact h.past a ha
    · intro x hx y hy
      rw [← Option.some.inj hx, ← Option.some.inj hy]
  · intro a ha
    rw [List.drop_set_of_lt (Nat.lt_succ_self k)] at ha
    exact hblank a ha

/-- Two stamps of an ordered row, by place. -/
theorem le_of_ordered (h : row.Pairwise Le) {i j : Nat} {a b : Option α} (hij : i < j)
    (ha : row[i]? = some a) (hb : row[j]? = some b) : Le a b := by
  obtain ⟨hi, rfl⟩ := List.getElem?_eq_some_iff.mp ha
  obtain ⟨hj, rfl⟩ := List.getElem?_eq_some_iff.mp hb
  exact List.pairwise_iff_getElem.mp h i j hi hj hij

end Stamps
