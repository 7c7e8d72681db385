import ContractPinger.ForStd.List

/-!
# Counting by groups

Elements that carry a key fall into groups. However the groups are found, counting group by
group counts every element once, and a table of counts kept up value by value tells how often
each value occurs.

## Key results

- `sum_countP_groups`: the counts of the groups sum to the count of the whole list
- `exists_countP_lt`: fewer elements than every group's fill would take leave one group short
- `lookup_upsert` / `sum_upsert_succ`: what a table holds after an entry is put, and what it adds
  to the sum of its counts
-/

namespace List

variable {α κ : Type*}

/-! ## Groups -/

/-- `eraseDups` leaves every element once. -/
theorem nodup_eraseDups [BEq α] [LawfulBEq α] : ∀ l : List α, l.eraseDups.Nodup
  | [] => nodup_nil
  | a :: l => by
    rw [eraseDups_cons, nodup_cons, mem_eraseDups]
    refine ⟨fun hmem => ?_, nodup_eraseDups _⟩
    have hne := (mem_filter.mp hmem).2
    simp at hne
termination_by l => l.length
decreasing_by
  have hle := length_filter_le (fun b => !b == a) l
  simp only [length_cons]
  omega

/-- Counting in each of the groups counts every element once. -/
theorem sum_countP_groups [DecidableEq κ] {keys : List κ} (hnd : keys.Nodup) (key : α → κ)
    (q : α → Bool) {l : List α} (hkeys : ∀ a ∈ l, key a ∈ keys) :
    (keys.map fun k => (l.filter fun a => key a == k).countP q).sum = l.countP q := by
  induction l with
  | nil => simp
  | cons a l ih =>
    have hrest := ih fun b hb => hkeys b (mem_cons_of_mem a hb)
    -- the first element counts in the group of its key only
    have hsplit : ∀ k, ((a :: l).filter fun b => key b == k).countP q =
        (if k = key a then (if q a then 1 else 0) else 0) +
          (l.filter fun b => key b == k).countP q := by
      intro k
      by_cases hk : k = key a
      · subst hk
        rw [filter_cons_of_pos (by simp), countP_cons, if_pos rfl, Nat.add_comm]
      · rw [filter_cons_of_neg (by simpa using fun h => hk h.symm), if_neg hk, Nat.zero_add]
    have hone : (keys.map fun k => if k = key a then (if q a then 1 else 0) else 0).sum =
        if q a then 1 else 0 := by
      rw [sum_map_eq_nsmul_single (key a) _ fun k hk _ => if_neg hk,
        count_eq_one_of_mem hnd (hkeys a mem_cons_self), one_nsmul, if_pos rfl]
    simp only [hsplit, sum_map_add, hone, hrest, countP_cons]
    omega

/-- Distinct groups do not count more elements than there are. -/
theorem sum_countP_le_length [DecidableEq κ] {keys : List κ} (hnd : keys.Nodup) (key : α → κ)
    (l : List α) : (keys.map fun k => l.countP fun a => key a == k).sum ≤ l.length := by
  have hgroups := sum_countP_groups hnd key (fun _ => true)
    (l := l.filter fun a => decide (key a ∈ keys)) fun a ha => by simpa using (mem_filter.mp ha).2
  have hsame : (keys.map fun k => l.countP fun a => key a == k) = keys.map fun k =>
      ((l.filter fun a => decide (key a ∈ keys)).filter fun a => key a == k).countP
        fun _ => true := by
    refine map_congr_left fun k hk => ?_
    rw [countP_true, filter_filter, ← countP_eq_length_filter]
    refine countP_congr fun a _ => ?_
    -- an element of one of the groups is not lost by looking at all of them first
    by_cases hkey : key a = k
    · simp [hkey, hk]
    · simp [hkey]
  rw [hsame, hgroups, countP_true]
  exact length_filter_le _ l

/-- The pigeonhole rule: with fewer elements than `n` for each key, some key has fewer. -/
theorem exists_countP_lt [DecidableEq κ] {keys : List κ} (hnd : keys.Nodup) (key : α → κ)
    {l : List α} {n : Nat} (h : l.length < keys.length * n) :
    ∃ k ∈ keys, (l.countP fun a => key a == k) < n := by
  by_contra hall
  push Not at hall
  have hle : keys.length * n ≤ (keys.map fun k => l.countP fun a => key a == k).sum := by
    have hsum := card_nsmul_le_sum (keys.map fun k => l.countP fun a => key a == k) n ?_
    · rwa [length_map, smul_eq_mul] at hsum
    · intro count hcount
      obtain ⟨k, hk, rfl⟩ := mem_map.mp hcount
      exact hall k hk
  have hlength := sum_countP_le_length hnd key l
  omega

/-! ## Tables of counts -/

section Table

variable [BEq α] [LawfulBEq α]

/-- The keys of a table with an entry put in. -/
theorem keys_upsert (l : List (α × κ)) (k : α) (b : κ) : (l.upsert k b).map Prod.fst =
    if l.any fun e => e.1 == k then l.map Prod.fst else l.map Prod.fst ++ [k] := by
  unfold upsert
  split
  · rw [map_map]
    refine map_congr_left fun e _ => ?_
    by_cases he : e.1 = k
    · simp [he]
    · simp [he]
  · rw [map_append]
    rfl

/-- A table keeps one entry to a key. -/
theorem nodup_keys_upsert {l : List (α × κ)} (hnd : (l.map Prod.fst).Nodup) (k : α) (b : κ) :
    ((l.upsert k b).map Prod.fst).Nodup := by
  rw [keys_upsert]
  split
  · exact hnd
  · rename_i hany
    have hfresh : k ∉ l.map Prod.fst := by
      intro hmem
      obtain ⟨e, he, rfl⟩ := mem_map.mp hmem
      exact hany (any_eq_true.mpr ⟨e, he, beq_self_eq_true e.1⟩)
    refine nodup_append.mpr ⟨hnd, nodup_singleton k, fun a ha b hb heq => ?_⟩
    rw [mem_singleton.mp hb] at heq
    exact hfresh (heq ▸ ha)

/-- Rewriting the entries at a key changes what is found there, and nothing else. -/
theorem lookup_map_at (l : List (α × κ)) (k k' : α) (b : κ) :
    (l.map fun e => if e.1 == k then (k, b) else e).lookup k' =
      (l.lookup k').map fun v => if k' == k then b else v := by
  induction l with
  | nil => rfl
  | cons e l ih =>
    by_cases he : e.1 = k
    · subst he
      rw [map_cons, if_pos (beq_self_eq_true e.1), lookup_cons, lookup_cons, ih]
      cases h : k' == e.1 <;> simp
    · rw [map_cons, if_neg (by simpa using he), lookup_cons, lookup_cons, ih]
      cases h : k' == e.1 with
      | false => rfl
      -- the entry found is under another key than the one rewritten
      | true =>
        have hne : (k' == k) = false := by
          rw [eq_of_beq h]
          simpa using he
        simp [hne]

/-- Under the key there is the new value, under the others what was there. -/
theorem lookup_upsert (l : List (α × κ)) (k k' : α) (b : κ) :
    (l.upsert k b).lookup k' = if k' == k then some b else l.lookup k' := by
  unfold upsert
  split
  · rename_i hany
    rw [lookup_map_at]
    split
    · rename_i hk
      -- the key stands in the table, so there is something to rewrite
      obtain ⟨e, he, hek⟩ := any_eq_true.mp hany
      have hfound : (l.lookup k').isSome = true := by
        rw [lookup_isSome_iff]
        exact ⟨e, he, by rw [eq_of_beq hk, eq_of_beq hek]; exact beq_self_eq_true k⟩
      obtain ⟨v, hv⟩ := Option.isSome_iff_exists.mp hfound
      rw [hv]
      rfl
    · exact Option.map_id'
  · rename_i hany
    have hlast : [(k, b)].lookup k' = if k' == k then some b else none := by
      rw [lookup_cons]
      cases k' == k <;> rfl
    rw [lookup_append, hlast]
    split
    · rename_i hk
      have hnone : l.lookup k' = none := by
        rw [lookup_eq_none_iff]
        intro e he
        have hne : k' ≠ e.1 := fun h =>
          hany (any_eq_true.mpr ⟨e, he, by rw [← h, eq_of_beq hk]; exact beq_self_eq_true k⟩)
        simpa using hne
      rw [hnone]
      rfl
    · exact Option.or_none

/-- Counting one more occurrence adds one to the sum of a table. -/
theorem sum_upsert_succ {l : List (α × Nat)} (hnd : (l.map Prod.fst).Nodup) (k : α) :
    ((l.upsert k ((l.lookup k).getD 0 + 1)).map Prod.snd).sum = (l.map Prod.snd).sum + 1 := by
  by_cases hk : k ∈ l.map Prod.fst
  · obtain ⟨⟨k, n⟩, he, rfl⟩ := mem_map.mp hk
    have hany : (l.any fun e => e.1 == k) = true := any_eq_true.mpr ⟨_, he, beq_self_eq_true k⟩
    obtain ⟨before, after, rfl⟩ := append_of_mem he
    rw [map_append, map_cons, nodup_middle, nodup_cons, mem_append, not_or] at hnd
    -- no other entry has the key
    have hothers : ∀ l : List (α × Nat), k ∉ l.map Prod.fst → ∀ b : Nat,
        (l.map fun e => if e.1 == k then (k, b) else e) = l := by
      intro l hl b
      refine (map_congr_left fun e he => ?_).trans (map_id l)
      have hne : e.1 ≠ k := fun h => hl (h ▸ mem_map_of_mem he)
      simp [hne]
    have hfound : (before ++ (k, n) :: after).lookup k = some n := by
      have hnone : before.lookup k = none := by
        rw [lookup_eq_none_iff]
        intro e he
        have hne : k ≠ e.1 := fun h => hnd.1.1 (mem_map.mpr ⟨e, he, h.symm⟩)
        simpa using hne
      rw [lookup_append, hnone, lookup_cons_self]
      rfl
    rw [upsert, if_pos hany, hfound, map_append, map_cons, hothers before hnd.1.1,
      hothers after hnd.1.2, if_pos (beq_self_eq_true k)]
    simp only [map_append, map_cons, sum_append, sum_cons, Option.getD_some]
    omega
  · have hnone : l.lookup k = none := by
      rw [lookup_eq_none_iff]
      intro e he
      have hne : k ≠ e.1 := fun h => hk (mem_map.mpr ⟨e, he, h.symm⟩)
      simpa using hne
    rw [upsert_of_notMem hk, hnone]
    simp

end Table

end List
