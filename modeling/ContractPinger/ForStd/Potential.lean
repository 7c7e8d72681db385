import ContractPinger.ForStd.Machine

/-!
# Potentials on machines

A potential prices what a state has yet to do. When every action pays for its work out of
the potential, or brings along what it adds to it, the work of a whole run is bounded by
what its actions have brought; and actions that only take from the potential come to an
end, in a state where none of them is enabled.

Nothing here is about a particular program.
-/

namespace Machine

variable {σ α : Type*} {step : σ → α → Option σ} {I : σ → Prop} {potential : σ → Nat} {s : σ}

/-- The potential rule: what each action does and leaves to be done is paid for by what
    there was to be done and what the action brings, and so it is for a whole run. -/
theorem exec_potential {work gain : α → Nat}
    (hkeep : ∀ s a s', I s → step s a = some s' → I s')
    (hpay : ∀ s a s', I s → step s a = some s' → potential s' + work a ≤ potential s + gain a)
    {as : List α} {s' : σ} (hs : I s) (h : exec step s as = some s') :
    potential s' + (as.map work).sum ≤ potential s + (as.map gain).sum := by
  induction as generalizing s with
  | nil =>
    simp only [exec, Option.some.injEq] at h
    subst h
    exact Nat.le_refl _
  | cons a rest ih =>
    simp only [exec, Option.bind_eq_some_iff] at h
    obtain ⟨s₁, hstep, hrest⟩ := h
    -- the first action pays out of the potential, the others out of what it left
    have hfirst := hpay s a s₁ hs hstep
    have hlater := ih (hkeep s a s₁ hs hstep) hrest
    simp only [List.map_cons, List.sum_cons]
    omega

/-- Counting the actions of a kind. -/
theorem sum_map_ite_eq_countP (p : α → Bool) (as : List α) :
    (as.map fun a => if p a then 1 else 0).sum = as.countP p := by
  induction as with
  | nil => rfl
  | cons a rest ih =>
    rw [List.map_cons, List.sum_cons, List.countP_cons, ih, Nat.add_comm]

/-- A potential that sums up the parts of a state changes by one part at a time. -/
theorem sum_map_set {β : Type*} (f : β → Nat) {l : List β} {i : Nat} {a : β} (b : β)
    (ha : l[i]? = some a) : ((l.set i b).map f).sum + f a = (l.map f).sum + f b := by
  induction l generalizing i with
  | nil => cases ha
  | cons c rest ih =>
    cases i with
    | zero =>
      cases ha
      simp only [List.set_cons_zero, List.map_cons, List.sum_cons]
      omega
    | succ i =>
      have hrest := ih ha
      simp only [List.set_cons_succ, List.map_cons, List.sum_cons]
      omega

/-- No action of the kind is enabled. -/
def Stuck (step : σ → α → Option σ) (kind : α → Prop) (s : σ) : Prop :=
  ∀ a, kind a → step s a = none

variable {kind : α → Prop}

/-- Actions that each take from the potential: a run of them is no longer than the
    potential it starts from. -/
theorem length_le_of_decreasing
    (hkeep : ∀ s a s', I s → kind a → step s a = some s' → I s')
    (hless : ∀ s a s', I s → kind a → step s a = some s' → potential s' < potential s)
    {as : List α} {s' : σ} (hs : I s) (hkind : ∀ a ∈ as, kind a)
    (h : exec step s as = some s') : as.length + potential s' ≤ potential s := by
  induction as generalizing s with
  | nil =>
    simp only [exec, Option.some.injEq] at h
    subst h
    exact Nat.le_of_eq (Nat.zero_add _)
  | cons a rest ih =>
    simp only [exec, Option.bind_eq_some_iff] at h
    obtain ⟨s₁, hstep, hrest⟩ := h
    have ha := hkind a List.mem_cons_self
    -- each action takes one at least from the potential
    have hfirst := hless s a s₁ hs ha hstep
    have hlater := ih (hkeep s a s₁ hs ha hstep)
      (fun b hb => hkind b (List.mem_cons_of_mem a hb)) hrest
    rw [List.length_cons]
    omega

/-- And they come to an end: some run of them leaves none enabled. -/
theorem exists_exec_stuck
    (hkeep : ∀ s a s', I s → kind a → step s a = some s' → I s')
    (hless : ∀ s a s', I s → kind a → step s a = some s' → potential s' < potential s)
    (hs : I s) :
    ∃ as s', (∀ a ∈ as, kind a) ∧ exec step s as = some s' ∧ Stuck step kind s' := by
  -- by induction on what there is left to take
  induction hn : potential s using Nat.strong_induction_on generalizing s with
  | _ n ih =>
    by_cases hstuck : Stuck step kind s
    · exact ⟨[], s, (fun _ h => nomatch h), rfl, hstuck⟩
    · simp only [Stuck, not_forall] at hstuck
      obtain ⟨a, ha, henabled⟩ := hstuck
      obtain ⟨s₁, hstep⟩ := Option.ne_none_iff_exists'.mp henabled
      have hlt := hless s a s₁ hs ha hstep
      obtain ⟨rest, s', hrest, hexec, hend⟩ :=
        ih (potential s₁) (hn ▸ hlt) (hkeep s a s₁ hs ha hstep) rfl
      refine ⟨a :: rest, s', ?_, ?_, hend⟩
      · intro b hb
        rcases List.mem_cons.mp hb with rfl | hb
        · exact ha
        · exact hrest b hb
      · simp only [exec, hstep, Option.bind_some, hexec]

end Machine
