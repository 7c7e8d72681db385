import Mathlib

/-!
# Order statistics

The element at a position of a sorted list is found by counting: that many elements at most
are below it, and more than that many at or below it. Sorting forgets the order of the list
it starts from.

## Key results

- `SortedLE.countP_lt_le` / `SortedLE.lt_countP_le`: the rank of the element at a position
- `mergeSort_eq_of_perm`: a rearrangement is sorted to the same list
-/

namespace List

variable {α : Type*} [LinearOrder α] {l l' : List α} {i j : Nat} {a b : α}

/-- No more than the elements in front of it are below an element of a sorted list. -/
theorem SortedLE.countP_lt_le (hl : l.SortedLE) (h : l[i]? = some a) :
    (l.countP fun b => decide (b < a)) ≤ i := by
  obtain ⟨hi, rfl⟩ := getElem?_eq_some_iff.mp h
  have hsplit : l.take i ++ l.drop i = l := take_append_drop i l
  -- nothing from its position on is below it
  have hrest : ((l.drop i).countP fun b => decide (b < l[i])) = 0 := by
    rw [countP_eq_zero]
    intro b hb
    obtain ⟨k, hk, rfl⟩ := mem_iff_getElem.mp hb
    rw [getElem_drop, decide_eq_true_eq, not_lt]
    exact sortedLE_iff_getElem_le_getElem_of_le.mp hl (Nat.le_add_right i k)
  calc (l.countP fun b => decide (b < l[i]))
      = ((l.take i).countP fun b => decide (b < l[i])) +
          (l.drop i).countP fun b => decide (b < l[i]) := by
        rw [← countP_append, hsplit]
    _ ≤ (l.take i).length := by
        rw [hrest, Nat.add_zero]
        exact countP_le_length
    _ ≤ i := length_take_le i l

/-- An element of a sorted list, and all in front of it, are at or below it. -/
theorem SortedLE.lt_countP_le (hl : l.SortedLE) (h : l[i]? = some a) :
    i < l.countP fun b => decide (b ≤ a) := by
  obtain ⟨hi, rfl⟩ := getElem?_eq_some_iff.mp h
  have hfront : ((l.take (i + 1)).countP fun b => decide (b ≤ l[i])) = i + 1 := by
    have hlength : (l.take (i + 1)).length = i + 1 := length_take_of_le hi
    refine (countP_eq_length.mpr ?_).trans hlength
    intro b hb
    obtain ⟨k, hk, rfl⟩ := mem_iff_getElem.mp hb
    rw [getElem_take, decide_eq_true_eq]
    rw [hlength] at hk
    exact sortedLE_iff_getElem_le_getElem_of_le.mp hl (Nat.lt_succ_iff.mp hk)
  have hle := (take_sublist (i + 1) l).countP_le (p := fun b => decide (b ≤ l[i]))
  omega

/-- What stands further right is no smaller. -/
theorem SortedLE.getElem?_le (hl : l.SortedLE) (hij : i ≤ j) (hi : l[i]? = some a)
    (hj : l[j]? = some b) : a ≤ b := by
  obtain ⟨_, rfl⟩ := getElem?_eq_some_iff.mp hi
  obtain ⟨_, rfl⟩ := getElem?_eq_some_iff.mp hj
  exact sortedLE_iff_getElem_le_getElem_of_le.mp hl hij

/-- Sorting does not see the order the elements stood in. -/
theorem mergeSort_eq_of_perm (h : l.Perm l') :
    (l.mergeSort fun a b => decide (a ≤ b)) = l'.mergeSort fun a b => decide (a ≤ b) := by
  have hperm : (l.mergeSort fun a b => decide (a ≤ b)).Perm
      (l'.mergeSort fun a b => decide (a ≤ b)) :=
    ((mergeSort_perm l _).trans h).trans (mergeSort_perm l' _).symm
  exact hperm.eq_of_sortedLE sortedLE_mergeSort sortedLE_mergeSort

end List
