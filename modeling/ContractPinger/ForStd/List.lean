import Mathlib

/-!
# List lemmas for keyed tables

A table is a list whose entries carry a key. `List.modifyFirst` rewrites the first
entry a predicate accepts, as assigning through the result of a `find` does; over
distinct keys it is a map.
-/

namespace List

variable {α β : Type*}

/-- Apply `f` to the first element that `p` accepts; later ones are left alone. -/
def modifyFirst (p : α → Bool) (f : α → α) : List α → List α
  | [] => []
  | a :: l => if p a then f a :: l else a :: modifyFirst p f l

@[simp] theorem modifyFirst_nil (p : α → Bool) (f : α → α) :
    ([] : List α).modifyFirst p f = [] := rfl

/-- What stands in the modified list stood there before, or is the modified first match. -/
theorem mem_modifyFirst {p : α → Bool} {f : α → α} {l : List α} {b : α}
    (h : b ∈ l.modifyFirst p f) : b ∈ l ∨ ∃ a, l.find? p = some a ∧ b = f a := by
  induction l with
  | nil => simp at h
  | cons a l ih =>
    by_cases hp : p a
    · rw [modifyFirst, if_pos hp, mem_cons] at h
      rcases h with rfl | h
      · exact .inr ⟨a, by simp [hp], rfl⟩
      · exact .inl (mem_cons_of_mem _ h)
    · rw [modifyFirst, if_neg hp, mem_cons] at h
      rcases h with rfl | h
      · exact .inl mem_cons_self
      · rcases ih h with h | ⟨a', ha', rfl⟩
        · exact .inl (mem_cons_of_mem _ h)
        · exact .inr ⟨a', by simp [hp, ha'], rfl⟩

/-- The modified first match stands in the modified list. -/
theorem modifyFirst_find {p : α → Bool} {f : α → α} {l : List α} {a : α}
    (h : l.find? p = some a) : f a ∈ l.modifyFirst p f := by
  induction l with
  | nil => simp at h
  | cons b l ih =>
    by_cases hp : p b
    · simp only [find?_cons_of_pos hp, Option.some.injEq] at h
      subst h
      simp [modifyFirst, hp]
    · rw [find?_cons_of_neg hp] at h
      simp [modifyFirst, hp, ih h]

/-- Some element of the modified list is accepted: the modified first match, or another. -/
theorem any_modifyFirst (p q : α → Bool) (f : α → α) (l : List α) :
    (l.modifyFirst p f).any q = (((l.find? p).any fun a => q (f a)) || (l.eraseP p).any q) := by
  induction l with
  | nil => rfl
  | cons a l ih =>
    by_cases hp : p a
    · simp [modifyFirst, hp]
    · simp only [modifyFirst, hp, Bool.false_eq_true, if_false, any_cons, find?_cons, ih,
        eraseP_cons, cond_false]
      ac_rfl

/-- Some element is accepted: the first match, or another. -/
theorem any_eq_find_or_eraseP (p q : α → Bool) (l : List α) :
    l.any q = ((l.find? p).any q || (l.eraseP p).any q) := by
  induction l with
  | nil => rfl
  | cons a l ih =>
    by_cases hp : p a
    · simp [hp]
    · simp only [hp, any_cons, find?_cons, ih, eraseP_cons, cond_false]
      ac_rfl

/-- A modification that keeps a projection keeps the list of its values. -/
theorem map_modifyFirst {p : α → Bool} {f : α → α} {g : α → β} (hf : ∀ a, g (f a) = g a)
    (l : List α) : (l.modifyFirst p f).map g = l.map g := by
  induction l with
  | nil => rfl
  | cons a l ih =>
    by_cases hp : p a
    · simp [modifyFirst, hp, hf]
    · simp [modifyFirst, hp, ih]

/-- Put a value at a key: in the place of the entry that has it, or at the end. -/
def upsert [BEq α] (l : List (α × β)) (k : α) (b : β) : List (α × β) :=
  if l.any fun e => e.1 == k then l.map fun e => if e.1 == k then (k, b) else e
  else l ++ [(k, b)]

/-- The table of the given entries, of which the later win. -/
def tableOf [BEq α] (entries : List (α × β)) : List (α × β) :=
  entries.foldl (fun l e => l.upsert e.1 e.2) []

/-! ## Lookup in a changed list -/

/-- An entry of a list with one entry replaced. -/
theorem getElem?_set_eq_some {l : List α} {i j : Nat} {a b : α}
    (h : (l.set j a)[i]? = some b) : i = j ∧ b = a ∨ i ≠ j ∧ l[i]? = some b := by
  by_cases hij : i = j
  · subst hij
    obtain ⟨hlt, hb⟩ := List.getElem?_eq_some_iff.mp h
    rw [List.getElem_set_self] at hb
    exact .inl ⟨rfl, hb.symm⟩
  · rw [List.getElem?_set_ne (Ne.symm hij)] at h
    exact .inr ⟨hij, h⟩

/-- An entry of a list with one entry added. -/
theorem getElem?_concat_eq_some {l : List α} {i : Nat} {a b : α}
    (h : (l ++ [a])[i]? = some b) : i = l.length ∧ b = a ∨ l[i]? = some b := by
  have hlt := (List.getElem?_eq_some_iff.mp h).1
  rw [length_append, length_singleton] at hlt
  by_cases hi : i < l.length
  · rw [getElem?_append_left hi] at h
    exact .inr h
  · have heq : i = l.length := by omega
    subst heq
    rw [getElem?_concat_length] at h
    exact .inl ⟨rfl, (Option.some.inj h).symm⟩

/-- Replacing an entry by one with the same projection keeps the list of projections. -/
theorem map_set_of_eq {g : α → β} {l : List α} {i : Nat} {a b : α} (hb : l[i]? = some b)
    (h : g a = g b) : (l.set i a).map g = l.map g := by
  rw [map_set, h]
  refine ext_getElem? fun j => ?_
  by_cases hj : i = j
  · subst hj
    have hlt := (List.getElem?_eq_some_iff.mp hb).1
    rw [getElem?_set_self (by rwa [length_map]), getElem?_map, hb]
    rfl
  · rw [getElem?_set_ne hj]

section Keyed

variable [DecidableEq β] {key : α → β}

/-- Over distinct keys, modifying the entry at a key is a map. -/
theorem modifyFirst_eq_map {l : List α} (hnd : (l.map key).Nodup) (k : β) (f : α → α) :
    l.modifyFirst (fun a => key a == k) f = l.map fun a => if key a = k then f a else a := by
  induction l with
  | nil => rfl
  | cons a l ih =>
    rw [map_cons, nodup_cons] at hnd
    by_cases hk : key a = k
    · -- no later entry has the key of the first one
      have hrest : l.map (fun b => if key b = k then f b else b) = l := by
        refine (map_congr_left fun b hb => ?_).trans (map_id l)
        have hne : key b ≠ k := fun h => hnd.1 (hk ▸ h ▸ mem_map_of_mem hb)
        simp [hne]
      simp [modifyFirst, hk, hrest]
    · simp [modifyFirst, hk, ih hnd.2]

/-- Over distinct keys, an entry is the one its key finds. -/
theorem find?_key_of_mem {l : List α} (hnd : (l.map key).Nodup) {a : α} (ha : a ∈ l) :
    l.find? (fun b => key b == key a) = some a := by
  induction l with
  | nil => simp at ha
  | cons b l ih =>
    rw [map_cons, nodup_cons] at hnd
    -- a later entry with the same key would be a repetition
    rcases mem_cons.mp ha with rfl | ha
    · simp
    · have hne : key b ≠ key a := fun h => hnd.1 (h ▸ mem_map_of_mem ha)
      rw [find?_cons_of_neg (by simpa using hne)]
      exact ih hnd.2 ha

/-- Over distinct keys, the first match of any predicate is modified at its key. -/
theorem modifyFirst_eq_of_find {l : List α} (hnd : (l.map key).Nodup) {p : α → Bool}
    {f : α → α} {a : α} (h : l.find? p = some a) :
    l.modifyFirst p f = l.modifyFirst (fun b => key b == key a) f := by
  induction l with
  | nil => rfl
  | cons b l ih =>
    rw [map_cons, nodup_cons] at hnd
    by_cases hp : p b
    · rw [find?_cons_of_pos hp] at h
      cases h
      simp [modifyFirst, hp]
    · rw [find?_cons_of_neg hp] at h
      have hne : key b ≠ key a := fun he => hnd.1 (he ▸ mem_map_of_mem (mem_of_find?_eq_some h))
      simp [modifyFirst, hp, hne, ih hnd.2 h]

end Keyed

/-! ## Tables -/

section Table

variable [BEq α] [LawfulBEq α]

/-- An entry under a new key is put last. -/
theorem upsert_of_notMem {l : List (α × β)} {k : α} (hk : k ∉ l.map Prod.fst) (b : β) :
    l.upsert k b = l ++ [(k, b)] := by
  have hany : (l.any fun e => e.1 == k) = false := by
    rw [any_eq_false]
    intro e he heq
    exact hk (eq_of_beq heq ▸ mem_map_of_mem he)
  simp [upsert, hany]

/-- Entries over distinct keys are a table as they stand. -/
theorem tableOf_eq_self {entries : List (α × β)} (hnd : (entries.map Prod.fst).Nodup) :
    entries.tableOf = entries := by
  -- the entries read so far are in the accumulator, and none has a key still to come
  have hfold : ∀ (rest acc : List (α × β)), ((acc ++ rest).map Prod.fst).Nodup →
      rest.foldl (fun l e => l.upsert e.1 e.2) acc = acc ++ rest := by
    intro rest
    induction rest with
    | nil => simp
    | cons e rest ih =>
      intro acc hacc
      have hfresh : e.1 ∉ acc.map Prod.fst := by
        rw [map_append, map_cons, nodup_middle, nodup_cons] at hacc
        exact fun hmem => hacc.1 (mem_append_left _ hmem)
      rw [foldl_cons, upsert_of_notMem hfresh, ih _ (by simpa using hacc)]
      simp
  exact hfold entries [] hnd

/-- Over distinct keys, lookup finds exactly the entries. -/
theorem lookup_eq_some_iff_mem {l : List (α × β)} (hnd : (l.map Prod.fst).Nodup) {k : α} {b : β} :
    l.lookup k = some b ↔ (k, b) ∈ l := by
  rw [lookup_eq_some_iff]
  constructor
  · rintro ⟨before, after, rfl, _⟩
    exact mem_append_right _ mem_cons_self
  · intro hmem
    obtain ⟨before, after, rfl⟩ := append_of_mem hmem
    -- no entry before it has its key
    refine ⟨before, after, rfl, fun e he => ?_⟩
    rw [map_append, map_cons, nodup_middle, nodup_cons] at hnd
    have hne : k ≠ e.1 := fun heq =>
      hnd.1 (mem_append_left _ (mem_map.mpr ⟨e, he, heq.symm⟩))
    simpa using hne

end Table

/-- A list without repetition inside a list that is no longer has the same members. -/
theorem mem_iff_of_subset_of_length_le {l l' : List α} (hnd : l.Nodup) (hsub : l ⊆ l')
    (hlen : l'.length ≤ l.length) (a : α) : a ∈ l ↔ a ∈ l' :=
  ((subperm_of_subset hnd hsub).perm_of_length_le hlen).mem_iff

end List
