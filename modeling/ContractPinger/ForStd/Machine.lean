import Mathlib

/-!
# Guarded labelled machines

A machine is a partial step function `step : σ → α → Option σ`: `step s a = none`
means that the action `a` is not enabled in `s`. This file develops the runs of
such a machine: executions of a list of actions, the states reachable by steps
that all meet a guard, and the rules by which an invariant is carried along a run.

Nothing here is about a particular program.
-/

namespace Machine

variable {σ τ α β : Type*}

/-- Perform the actions in order; `none` as soon as one is not enabled. -/
def exec (step : σ → α → Option σ) (s : σ) : List α → Option σ
  | [] => some s
  | a :: rest => (step s a).bind fun s' => exec step s' rest

/-- The states reachable from `s₀` by steps that each meet `guard`. -/
inductive ReachableUnder (step : σ → α → Option σ) (guard : σ → α → Prop) (s₀ : σ) : σ → Prop
  | refl : ReachableUnder step guard s₀ s₀
  | tail {s s' : σ} (a : α) : ReachableUnder step guard s₀ s → guard s a →
      step s a = some s' → ReachableUnder step guard s₀ s'

/-- The states reachable from `s₀` by any steps. -/
abbrev Reachable (step : σ → α → Option σ) (s₀ : σ) : σ → Prop :=
  ReachableUnder step (fun _ _ => True) s₀

variable {step : σ → α → Option σ} {guard : σ → α → Prop} {s₀ s : σ}

/-- The invariant rule: what holds initially and is kept by every guarded step
    holds in every reachable state. -/
theorem ReachableUnder.invariant {I : σ → Prop} (h : ReachableUnder step guard s₀ s)
    (hinit : I s₀)
    (hstep : ∀ s a s', I s → guard s a → step s a = some s' → I s') : I s := by
  induction h with
  | refl => exact hinit
  | tail a _ hg hs ih => exact hstep _ a _ ih hg hs

/-- The invariant rule with the reachability of the source state at hand. -/
theorem ReachableUnder.invariant' {I : σ → Prop} (h : ReachableUnder step guard s₀ s)
    (hinit : I s₀)
    (hstep : ∀ s a s', ReachableUnder step guard s₀ s → I s → guard s a →
      step s a = some s' → I s') : I s := by
  induction h with
  | refl => exact hinit
  | tail a hr hg hs ih => exact hstep _ a _ hr ih hg hs

/-- A weaker guard reaches more states. -/
theorem ReachableUnder.mono {guard' : σ → α → Prop}
    (h : ReachableUnder step guard s₀ s) (hle : ∀ s a, guard s a → guard' s a) :
    ReachableUnder step guard' s₀ s := by
  induction h with
  | refl => exact .refl
  | tail a _ hg hs ih => exact .tail a ih (hle _ _ hg) hs

/-- Guarded reachability is reachability. -/
theorem ReachableUnder.reachable (h : ReachableUnder step guard s₀ s) :
    Reachable step s₀ s :=
  h.mono fun _ _ _ => trivial

/-- Reachability composes. -/
theorem ReachableUnder.trans {s₁ s₂ : σ} (h₁ : ReachableUnder step guard s₀ s₁)
    (h₂ : ReachableUnder step guard s₁ s₂) : ReachableUnder step guard s₀ s₂ := by
  induction h₂ with
  | refl => exact h₁
  | tail a _ hg hs ih => exact .tail a ih hg hs

/-- An executed list of actions reaches its final state. -/
theorem reachable_of_exec {as : List α} {s' : σ} (h : exec step s as = some s') :
    Reachable step s s' := by
  induction as generalizing s with
  | nil =>
    simp only [exec, Option.some.injEq] at h
    exact h ▸ .refl
  | cons a rest ih =>
    simp only [exec, Option.bind_eq_some_iff] at h
    obtain ⟨s₁, hs, hrest⟩ := h
    exact (ReachableUnder.tail a .refl trivial hs).trans (ih hrest)

/-- A run that goes through ends in the state it is evaluated to. -/
theorem exec_getD {as : List α} (h : (exec step s as).isSome = true) (default : σ) :
    exec step s as = some ((exec step s as).getD default) := by
  cases hexec : exec step s as with
  | none =>
    rw [hexec] at h
    cases h
  | some s' => rfl

/-- Performing one action more. -/
theorem exec_concat (s : σ) (as : List α) (a : α) :
    exec step s (as ++ [a]) = (exec step s as).bind fun s' => step s' a := by
  induction as generalizing s with
  | nil =>
    show (step s a).bind (fun s' => some s') = step s a
    exact Option.bind_fun_some (step s a)
  | cons b rest ih =>
    show (step s b).bind (fun s' => exec step s' (rest ++ [a])) = _
    simp only [ih, exec, Option.bind_assoc]

/-- What is reachable is reached by an executed list of actions. -/
theorem exec_of_reachable {s' : σ} (h : Reachable step s s') : ∃ as, exec step s as = some s' := by
  induction h with
  | refl => exact ⟨[], rfl⟩
  | tail a _ _ hs ih =>
    obtain ⟨as, has⟩ := ih
    exact ⟨as ++ [a], by rw [exec_concat, has, Option.bind_some, hs]⟩

/-- The history rule: what holds at the start of nothing done yet, and is kept by every step
    that adds its action to what has been done, holds of every executed list of actions. -/
theorem exec_invariant {I : List α → σ → Prop} (hinit : I [] s)
    (hstep : ∀ as s₁ a s₂, exec step s as = some s₁ → I as s₁ → step s₁ a = some s₂ →
      I (as ++ [a]) s₂)
    {as : List α} {s' : σ} (h : exec step s as = some s') : I as s' := by
  induction as using List.reverseRecOn generalizing s' with
  | nil =>
    simp only [exec, Option.some.injEq] at h
    exact h ▸ hinit
  | append_singleton rest a ih =>
    rw [exec_concat, Option.bind_eq_some_iff] at h
    obtain ⟨s₁, hrest, hs⟩ := h
    exact hstep rest s₁ a s' hrest (ih hrest) hs

/-- Some step of the run is an event, in the state it is taken from. -/
def Happens (step : σ → α → Option σ) (event : σ → α → Prop) (s : σ) (as : List α) : Prop :=
  ∃ before a after s', as = before ++ a :: after ∧ exec step s before = some s' ∧ event s' a

/-- Nothing happens in a run without a step. -/
theorem not_happens_nil (event : σ → α → Prop) (s : σ) : ¬ Happens step event s [] := by
  intro h
  obtain ⟨before, a, after, _, heq, _⟩ := h
  cases before <;> cases heq

/-- What happens in a run with one action more. -/
theorem happens_concat {event : σ → α → Prop} {as : List α} {s' : σ}
    (h : exec step s as = some s') (a : α) :
    Happens step event s (as ++ [a]) ↔ Happens step event s as ∨ event s' a := by
  constructor
  · intro hhappens
    obtain ⟨before, b, after, s₁, heq, hexec, hevent⟩ := hhappens
    cases after using List.reverseRecOn with
    -- nothing after the event: it is the action added last
    | nil =>
      obtain ⟨rfl, hlast⟩ := List.append_inj' heq rfl
      cases hlast
      rw [h] at hexec
      cases hexec
      exact .inr hevent
    -- otherwise the event was in the run before
    | append_singleton rest c =>
      rw [← List.cons_append, ← List.append_assoc] at heq
      obtain ⟨hrest, _⟩ := List.append_inj' heq rfl
      exact .inl ⟨before, b, rest, s₁, hrest, hexec, hevent⟩
  · intro hcases
    cases hcases with
    | inl hhappens =>
      obtain ⟨before, b, after, s₁, heq, hexec, hevent⟩ := hhappens
      exact ⟨before, b, after ++ [a], s₁, by rw [heq, List.append_assoc]; rfl, hexec, hevent⟩
    | inr hevent => exact ⟨as, a, [], s', rfl, h, hevent⟩

/-- The simulation rule: when every guarded step of one machine is matched by a
    (possibly empty) run of another, reachable states are related to reachable states. -/
theorem ReachableUnder.simulation {step' : τ → β → Option τ} {t₀ : τ} {R : σ → τ → Prop}
    (h : ReachableUnder step guard s₀ s) (hinit : R s₀ t₀)
    (hstep : ∀ s a s' t, R s t → guard s a → step s a = some s' →
      ∃ t', R s' t' ∧ Reachable step' t t') :
    ∃ t, R s t ∧ Reachable step' t₀ t := by
  induction h with
  | refl => exact ⟨t₀, hinit, .refl⟩
  | tail a _ hg hs ih =>
    obtain ⟨t, hR, ht⟩ := ih
    -- the match of this step continues the matching run of those before it
    obtain ⟨t', hR', ht'⟩ := hstep _ a _ t hR hg hs
    exact ⟨t', hR', ht.trans ht'⟩

/-! ## Whole runs

`Always I s as` holds when every state visited by performing `as` from `s` satisfies
`I`; `Along guard s as` holds when every step performed on the way meets `guard`. A
run stops at the first action that is not enabled. -/

/-- `I` holds in every state the run visits. -/
def Always (step : σ → α → Option σ) (I : σ → Prop) (s : σ) : List α → Prop
  | [] => I s
  | a :: rest => I s ∧ ∀ s', step s a = some s' → Always step I s' rest

/-- Every step the run performs meets `guard`. -/
def Along (step : σ → α → Option σ) (guard : σ → α → Prop) (s : σ) : List α → Prop
  | [] => True
  | a :: rest => ∀ s', step s a = some s' → guard s a ∧ Along step guard s' rest

/-- Along a run that meets the guard, guarded reachability. -/
theorem ReachableUnder.of_exec {as : List α} {s' : σ} (h : exec step s as = some s')
    (hg : Along step guard s as) : ReachableUnder step guard s s' := by
  induction as generalizing s with
  | nil =>
    simp only [exec, Option.some.injEq] at h
    exact h ▸ .refl
  | cons a rest ih =>
    simp only [exec, Option.bind_eq_some_iff] at h
    obtain ⟨s₁, hs, hrest⟩ := h
    obtain ⟨hguard, halong⟩ := hg s₁ hs
    exact (ReachableUnder.tail a .refl hguard hs).trans (ih hrest halong)

instance decidableAlong [∀ s a, Decidable (guard s a)] (as : List α) (s : σ) :
    Decidable (Along step guard s as) :=
  match as with
  | [] => isTrue trivial
  | a :: rest =>
    match hs : step s a with
    | none => isTrue fun s' h => nomatch hs.symm.trans h
    | some s₁ =>
      have := decidableAlong rest s₁
      decidable_of_iff (guard s a ∧ Along step guard s₁ rest)
        ⟨fun h s' hs' => by cases hs.symm.trans hs'; exact h, fun h => h s₁ hs⟩

/-- The state a run starts from is visited. -/
theorem Always.head {I : σ → Prop} {as : List α} (h : Always step I s as) : I s := by
  cases as with
  | nil => exact h
  | cons a rest => exact h.1

/-- The exact invariant rule, for runs of actions of one kind and beside an invariant `J` of
    these runs: when a step from a state with the invariant keeps it precisely if it meets the
    guard, a run keeps it throughout precisely if all its steps meet the guard. -/
theorem always_iff_along_on {I J : σ → Prop} {kind : α → Prop}
    (hJ : ∀ s a s', kind a → J s → step s a = some s' → J s')
    (hstep : ∀ s a s', kind a → J s → I s → step s a = some s' → (I s' ↔ guard s a))
    (as : List α) (hkind : ∀ a ∈ as, kind a) (hj : J s) (hs : I s) :
    Always step I s as ↔ Along step guard s as := by
  induction as generalizing s with
  | nil => simp [Always, Along, hs]
  | cons a rest ih =>
    have hfirst := hkind a List.mem_cons_self
    have hrest : ∀ a ∈ rest, kind a := fun b hb => hkind b (List.mem_cons_of_mem a hb)
    simp only [Always, Along, hs, true_and]
    constructor
    · intro h s' hs'
      -- the state after the step is visited, so it has the invariant: the step met the guard
      have hI := (h s' hs').head
      have hguard := (hstep s a s' hfirst hj hs hs').mp hI
      exact ⟨hguard, (ih hrest (hJ s a s' hfirst hj hs') hI).mp (h s' hs')⟩
    · intro h s' hs'
      obtain ⟨hg, halong⟩ := h s' hs'
      have hI := (hstep s a s' hfirst hj hs hs').mpr hg
      exact (ih hrest (hJ s a s' hfirst hj hs') hI).mpr halong

/-- The exact invariant rule, for runs of any actions. -/
theorem always_iff_along_of {I J : σ → Prop}
    (hJ : ∀ s a s', J s → step s a = some s' → J s')
    (hstep : ∀ s a s', J s → I s → step s a = some s' → (I s' ↔ guard s a))
    (as : List α) (hj : J s) (hs : I s) : Always step I s as ↔ Along step guard s as :=
  always_iff_along_on (fun s a s' _ => hJ s a s') (fun s a s' _ => hstep s a s') as
    (fun _ _ => trivial) hj hs

/-- The exact invariant rule, without another invariant. -/
theorem always_iff_along {I : σ → Prop}
    (hstep : ∀ s a s', I s → step s a = some s' → (I s' ↔ guard s a))
    (as : List α) (hs : I s) : Always step I s as ↔ Along step guard s as :=
  always_iff_along_of (J := fun _ => True) (fun _ _ _ _ _ => trivial)
    (fun s a s' _ hI hs' => hstep s a s' hI hs') as trivial hs

/-- A guard that the invariant gives holds along a run that keeps the invariant. -/
theorem Always.along {I : σ → Prop} {as : List α} (h : Always step I s as)
    (himp : ∀ s a, I s → guard s a) : Along step guard s as := by
  induction as generalizing s with
  | nil => trivial
  | cons a rest ih => exact fun s' hs' => ⟨himp _ a h.1, ih (h.2 s' hs')⟩

/-- What the guarded steps keep holds throughout a run that meets the guard. -/
theorem Along.always {I : σ → Prop} {as : List α} (h : Along step guard s as) (hs : I s)
    (hstep : ∀ s a s', I s → guard s a → step s a = some s' → I s') : Always step I s as := by
  induction as generalizing s with
  | nil => exact hs
  | cons a rest ih =>
    refine ⟨hs, fun s' hs' => ?_⟩
    obtain ⟨hguard, hrest⟩ := h s' hs'
    exact ih hrest (hstep s a s' hs hguard hs')

/-- In the state an executed prefix ends in, the invariant of the run holds. -/
theorem Always.of_exec {I : σ → Prop} {as bs : List α} {s' : σ}
    (h : Always step I s (as ++ bs)) (hexec : exec step s as = some s') :
    Always step I s' bs := by
  induction as generalizing s with
  | nil =>
    simp only [exec, Option.some.injEq] at hexec
    exact hexec ▸ h
  | cons a rest ih =>
    simp only [exec, Option.bind_eq_some_iff] at hexec
    obtain ⟨s₁, hs, hrest⟩ := hexec
    exact ih (h.2 s₁ hs) hrest

/-- The invariant of a run holds in the state that it ends in. -/
theorem Always.last {I : σ → Prop} {as : List α} {s' : σ} (h : Always step I s as)
    (hexec : exec step s as = some s') : I s' := by
  rw [← List.append_nil as] at h
  exact (h.of_exec hexec).head

/-- In the state an executed prefix ends in, the rest of the run still meets the guard. -/
theorem Along.of_exec {as bs : List α} {s' : σ}
    (h : Along step guard s (as ++ bs)) (hexec : exec step s as = some s') :
    Along step guard s' bs := by
  induction as generalizing s with
  | nil =>
    simp only [exec, Option.some.injEq] at hexec
    exact hexec ▸ h
  | cons a rest ih =>
    simp only [exec, Option.bind_eq_some_iff] at hexec
    obtain ⟨s₁, hs, hrest⟩ := hexec
    exact ih (h s₁ hs).2 hrest

end Machine
