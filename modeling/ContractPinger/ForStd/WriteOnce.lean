import Mathlib

/-!
# Cells that are written once

A cell that is written once tells the same from then on: what a reader has seen of it stays
true. The same is said of a row of cells, of which those from some place on are blank: writing
one of these takes nothing back.

Nothing here is about a particular program.
-/

namespace WriteOnce

variable {α β γ : Type*}

/-- What the first cell tells, the second tells too. -/
def Keeps (a b : Option α) : Prop := ∀ x, a = some x → b = some x

theorem Keeps.refl (a : Option α) : Keeps a a := fun _ h => h

theorem Keeps.trans {a b c : Option α} (hab : Keeps a b) (hbc : Keeps b c) : Keeps a c :=
  fun x h => hbc x (hab x h)

/-- What was blank may become anything. -/
theorem keeps_of_none {a : Option α} (h : a = none) (b : Option α) : Keeps a b := by
  intro x hx
  rw [h] at hx
  cases hx

/-- What is computed of two cells is kept with them. -/
theorem Keeps.map₂ {a a' : Option α} {b b' : Option β} (ha : Keeps a a') (hb : Keeps b b')
    (f : α → β → γ) : Keeps (Option.map₂ f a b) (Option.map₂ f a' b') := by
  intro z hz
  obtain ⟨x, y, hx, hy, rfl⟩ := Option.map₂_eq_some_iff.mp hz
  exact Option.map₂_eq_some_iff.mpr ⟨x, y, ha x hx, hb y hy, rfl⟩

/-- A cell that is written on a condition, which stays met. -/
theorem keeps_ite {p q : Prop} [Decidable p] [Decidable q] {x y : α} (h : p → q ∧ x = y) :
    Keeps (if p then some x else none) (if q then some y else none) := by
  intro z hz
  obtain ⟨hp, hz⟩ := Option.ite_none_right_eq_some.mp hz
  obtain ⟨hq, rfl⟩ := h hp
  rw [if_pos hq, hz]

/-! ## Rows -/

/-- What a cell of the first row tells, the same cell of the second tells too. -/
def KeepsRow (row row' : List (Option α)) : Prop :=
  ∀ (i : Nat) (x : α), row[i]? = some (some x) → row'[i]? = some (some x)

theorem KeepsRow.refl (row : List (Option α)) : KeepsRow row row := fun _ _ h => h

theorem KeepsRow.trans {row row' row'' : List (Option α)} (h : KeepsRow row row')
    (h' : KeepsRow row' row'') : KeepsRow row row'' :=
  fun i x hx => h' i x (h i x hx)

/-- From place `n` on the row is blank. -/
def Blank (n : Nat) (row : List (Option α)) : Prop := ∀ a ∈ row.drop n, a = none

variable {n m k : Nat} {row : List (Option α)}

/-- What is blank from a place on is blank from a later one. -/
theorem Blank.mono (h : Blank n row) (hnm : n ≤ m) : Blank m row := by
  intro a ha
  rw [show m = n + (m - n) by omega, ← List.drop_drop] at ha
  exact h a (List.mem_of_mem_drop ha)

/-- Writing a blank place leaves those after it blank. -/
theorem Blank.set (h : Blank n row) (hk : n ≤ k) (value : Option α) :
    Blank (k + 1) (row.set k value) := by
  intro a ha
  rw [List.drop_set_of_lt (Nat.lt_succ_self k)] at ha
  exact h.mono (Nat.le_succ_of_le hk) a ha

/-- And it takes nothing back. -/
theorem Blank.keepsRow_set (h : Blank n row) (hk : n ≤ k) (value : Option α) :
    KeepsRow row (row.set k value) := by
  intro i x hx
  by_cases hi : i = k
  · -- the place was blank, so it told nothing
    subst hi
    have hmem : some x ∈ row.drop i := by
      rw [List.mem_iff_getElem?]
      exact ⟨0, by rw [List.getElem?_drop]; exact hx⟩
    cases h.mono hk _ hmem
  · rw [List.getElem?_set_ne (Ne.symm hi)]
    exact hx

end WriteOnce
