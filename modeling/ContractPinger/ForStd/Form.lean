import Mathlib

/-!
# Forms

A form has fields, in some order. What is entered for a field is checked on its own, and comes
to a value or is refused, for one reason or more. Reading a form yields a value of every field,
or every reason for which a field was refused, in the order of the fields.

Nothing here is about a particular program.
-/

universe u v w x

/-- The reasons for which something is refused: there is one at least. -/
abbrev Refusal (ε : Type w) := { reasons : List ε // reasons ≠ [] }

/-- A form over the fields `ι`, for entries in `ρ`. -/
structure Form (ι : Type u) (ρ : Type v) (ε : Type w) (Value : ι → Type x) where
  fields : List ι
  complete : ∀ i, i ∈ fields
  check : (i : ι) → ρ → Except (Refusal ε) (Value i)

namespace Form

variable {ι : Type u} {ρ : Type v} {ε : Type w} {Value : ι → Type x} {α : Type x}
  {form : Form ι ρ ε Value} {entry : ι → ρ} {values : (i : ι) → Value i}

/-- The reasons a check gives. -/
def reasons : Except (Refusal ε) α → List ε
  | .ok _ => []
  | .error refusal => refusal.val

/-- Without a reason there is a value. -/
theorem reasons_eq_nil_iff {outcome : Except (Refusal ε) α} :
    reasons outcome = [] ↔ ∃ a, outcome = .ok a := by
  cases outcome with
  | ok a => simp [reasons]
  | error refusal => simp [reasons, refusal.property]

/-- The value a check has come to. -/
def valueOf : (outcome : Except (Refusal ε) α) → reasons outcome = [] → α
  | .ok a, _ => a
  | .error refusal, h => absurd h refusal.property

/-- The value is the one the check came to. -/
theorem ok_valueOf {outcome : Except (Refusal ε) α} (h : reasons outcome = []) :
    outcome = .ok (valueOf outcome h) := by
  cases outcome with
  | ok a => rfl
  | error refusal => exact absurd h refusal.property

/-- The reasons of all fields, each with its field. -/
def issues (form : Form ι ρ ε Value) (entry : ι → ρ) : List (ι × ε) :=
  form.fields.flatMap fun i => (reasons (form.check i (entry i))).map fun reason => (i, reason)

/-- Nothing is wrong with the form if nothing is wrong with any field. -/
theorem issues_eq_nil_iff :
    form.issues entry = [] ↔ ∀ i, reasons (form.check i (entry i)) = [] := by
  rw [issues, List.flatMap_eq_nil_iff]
  constructor
  · intro h i
    exact List.map_eq_nil_iff.mp (h i (form.complete i))
  · intro h i _
    exact List.map_eq_nil_iff.mpr (h i)

/-- The form as it was filled in. -/
def read (form : Form ι ρ ε Value) (entry : ι → ρ) :
    Except (List (ι × ε)) ((i : ι) → Value i) :=
  if h : form.issues entry = [] then
    .ok fun i => valueOf (form.check i (entry i)) (issues_eq_nil_iff.mp h i)
  else .error (form.issues entry)

/-- A form is accepted with the values its fields are. -/
theorem read_eq_ok_iff :
    form.read entry = .ok values ↔ ∀ i, form.check i (entry i) = .ok (values i) := by
  unfold read
  split
  · rename_i h
    rw [Except.ok.injEq]
    constructor
    · intro hvalues i
      rw [← hvalues]
      exact ok_valueOf (issues_eq_nil_iff.mp h i)
    · intro hvalues
      funext i
      have hvalue := ok_valueOf (issues_eq_nil_iff.mp h i)
      exact Except.ok.inj (hvalue.symm.trans (hvalues i))
  · rename_i h
    constructor
    · intro herror
      cases herror
    · intro hvalues
      refine absurd (issues_eq_nil_iff.mpr fun i => ?_) h
      exact reasons_eq_nil_iff.mpr ⟨values i, hvalues i⟩

/-- And refused with the reasons of all of them. -/
theorem read_eq_error_iff {list : List (ι × ε)} :
    form.read entry = .error list ↔ list ≠ [] ∧ list = form.issues entry := by
  unfold read
  split
  · rename_i h
    constructor
    · intro hok
      cases hok
    · rintro ⟨hne, rfl⟩
      exact absurd h hne
  · rename_i h
    rw [Except.error.injEq]
    constructor
    · rintro rfl
      exact ⟨h, rfl⟩
    · rintro ⟨-, rfl⟩
      rfl

/-- Every reason of every field is among the issues, and nothing else. -/
theorem mem_issues_iff {i : ι} {reason : ε} :
    (i, reason) ∈ form.issues entry ↔ reason ∈ reasons (form.check i (entry i)) := by
  simp only [issues, List.mem_flatMap, List.mem_map, Prod.mk.injEq]
  constructor
  · rintro ⟨_, -, _, hmem, rfl, rfl⟩
    exact hmem
  · intro hmem
    exact ⟨i, form.complete i, reason, hmem, rfl, rfl⟩

/-- The reasons stand in the order of the fields. -/
theorem pairwise_issues {r : ι → ι → Prop} (hrefl : ∀ i, r i i) (h : form.fields.Pairwise r) :
    (form.issues entry).Pairwise fun a b => r a.1 b.1 := by
  rw [issues, List.pairwise_flatMap]
  constructor
  · intro i _
    rw [List.pairwise_map]
    exact List.pairwise_of_forall fun _ _ => hrefl i
  · refine h.imp fun {i j} hij a ha b hb => ?_
    obtain ⟨_, -, rfl⟩ := List.mem_map.mp ha
    obtain ⟨_, -, rfl⟩ := List.mem_map.mp hb
    exact hij

end Form
