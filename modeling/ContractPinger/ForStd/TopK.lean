import Mathlib

/-!
# The newest of a growing set

A bounded memory of a growing set keeps `k` elements of largest rank: whoever stays ranks at
least as high as whoever was let go. Such a memory can be kept up element by element: the
newest of what was held and what is new are the newest of everything.

## Key results

- `TopK.stream`: pruning what is held and new prunes the whole history
- `TopK.sort`: dropping the front of the list sorted by rank leaves the newest
-/

section TopK

variable {α β : Type*}

/-- `held` are `k` elements of `all` of largest rank, or all of them if they are fewer. -/
structure TopK [LE β] (k : Nat) (rank : α → β) (held all : Finset α) : Prop where
  subset : held ⊆ all
  card : held.card = min k all.card
  newest : ∀ d ∈ all, d ∉ held → ∀ h ∈ held, rank d ≤ rank h

namespace TopK

section Preorder

variable [Preorder β] {k : Nat} {rank : α → β} {held held' all new : Finset α}

/-- Few enough elements are all held. -/
theorem refl (hfew : all.card ≤ k) : TopK k rank all all where
  subset := Finset.Subset.refl all
  card := by omega
  newest _ hd hout := absurd hd hout

/-- No more than `k` are held. -/
theorem card_le (h : TopK k rank held all) : held.card ≤ k := by
  have hcard := h.card
  omega

/-- Whoever has let something go is full. -/
theorem card_eq_of_dropped (h : TopK k rank held all) {d : α} (hd : d ∈ all) (hout : d ∉ held) :
    held.card = k := by
  have hlt : held.card < all.card :=
    Finset.card_lt_card ⟨h.subset, fun hsub => hout (hsub hd)⟩
  have hcard := h.card
  omega

/-- The newest of what was held and what is new are the newest of everything. -/
theorem stream [DecidableEq α] (h : TopK k rank held all) (h' : TopK k rank held' (held ∪ new)) :
    TopK k rank held' (all ∪ new) where
  subset := h'.subset.trans (Finset.union_subset_union_left h.subset)
  card := by
    have hcard := h.card
    have hcard' := h'.card
    by_cases hfew : all.card ≤ k
    · -- nothing has been let go so far
      have hall : held = all := Finset.eq_of_subset_of_card_le h.subset (by omega)
      rw [hcard', hall]
    · have hheld : held.card ≤ (held ∪ new).card :=
        Finset.card_le_card Finset.subset_union_left
      have hunion : all.card ≤ (all ∪ new).card :=
        Finset.card_le_card Finset.subset_union_left
      omega
  newest d hd hout x hx := by
    by_cases hcand : d ∈ held ∪ new
    · exact h'.newest d hcand hout x hx
    · -- `d` was let go before, so what is held then and now fills the memory
      rw [Finset.mem_union, not_or] at hcand
      have hdall : d ∈ all := (Finset.mem_union.mp hd).resolve_right hcand.2
      have hfull := h.card_eq_of_dropped hdall hcand.1
      by_cases hxheld : x ∈ held
      · exact h.newest d hdall hcand.1 x hxheld
      · -- the new `x` has displaced some `e`, which ranks between the two
        have hnot : ¬ held ⊆ held' := by
          intro hsub
          have hle := h'.card_le
          have heq : held = held' := Finset.eq_of_subset_of_card_le hsub (by omega)
          exact hxheld (heq ▸ hx)
        obtain ⟨e, he, heout⟩ := Finset.not_subset.mp hnot
        have hde := h.newest d hdall hcand.1 e he
        have hex := h'.newest e (Finset.mem_union_left new he) heout x hx
        exact le_trans hde hex

end Preorder

/-- Dropping the front of a list sorted by rank leaves the newest. -/
theorem sort [DecidableEq α] [LinearOrder β] {rank : α → β} {l : List α} (hnd : l.Nodup) (k : Nat) :
    TopK k rank
      (((l.mergeSort fun a b => decide (rank a ≤ rank b)).drop (l.length - k)).toFinset)
      l.toFinset := by
  let sorted := l.mergeSort fun a b => decide (rank a ≤ rank b)
  have hperm : sorted.Perm l := List.mergeSort_perm l _
  have hsorted : sorted.Pairwise fun a b => rank a ≤ rank b := by
    -- the order of ranks is transitive and total, as sorting needs
    have hpairwise : sorted.Pairwise fun a b => decide (rank a ≤ rank b) = true := by
      apply List.pairwise_mergeSort
      · intro a b c hab hbc
        simp only [decide_eq_true_eq] at hab hbc ⊢
        exact le_trans hab hbc
      · intro a b
        simp only [Bool.or_eq_true, decide_eq_true_eq]
        exact le_total (rank a) (rank b)
    exact hpairwise.imp fun hle => of_decide_eq_true hle
  have hnodup : sorted.Nodup := hperm.nodup_iff.mpr hnd
  constructor
  · intro a ha
    rw [List.mem_toFinset] at ha ⊢
    exact hperm.mem_iff.mp (List.mem_of_mem_drop ha)
  · rw [List.toFinset_card_of_nodup (hnodup.sublist (List.drop_sublist _ _)),
      List.toFinset_card_of_nodup hnd, List.length_drop, hperm.length_eq]
    omega
  · intro d hd hout x hx
    rw [List.mem_toFinset] at hd hout hx
    rw [← List.take_append_drop (l.length - k) sorted, List.pairwise_append] at hsorted
    -- what is not held stands in the front that was dropped, before everything held
    have htake : d ∈ sorted.take (l.length - k) := by
      have hmem : d ∈ sorted.take (l.length - k) ++ sorted.drop (l.length - k) := by
        rw [List.take_append_drop]
        exact hperm.mem_iff.mpr hd
      exact (List.mem_append.mp hmem).resolve_right hout
    exact hsorted.2.2 d htake x hx

end TopK

end TopK
