import ContractPinger.ForStd.Machine

/-!
# Unwinding

An observer sees part of a state, its view, and some actions concern it. When the others
never change the view, and what those that do concern it make of the view depends on the
view alone, the others can be purged from a run without the observer noticing: no
information flows to it from them.

Nothing here is about a particular program.
-/

namespace Machine

variable {σ α ν : Type*}

/-- The observer's view changes by the actions that concern it only, and of itself. -/
structure Unwinds (step : σ → α → Option σ) (view : σ → ν) (concerns : α → Bool) : Prop where
  respects : ∀ s a s', concerns a = false → step s a = some s' → view s' = view s
  consistent : ∀ s t a s', concerns a = true → view s = view t → step s a = some s' →
    ∃ t', step t a = some t' ∧ view s' = view t'

variable {step : σ → α → Option σ} {view : σ → ν} {concerns : α → Bool}

/-- A run without the actions that do not concern the observer: it sees the same. -/
theorem Unwinds.exec_purge (h : Unwinds step view concerns) {as : List α} {s s' t : σ}
    (hview : view s = view t) (hexec : exec step s as = some s') :
    ∃ t', exec step t (as.filter concerns) = some t' ∧ view s' = view t' := by
  induction as generalizing s t with
  | nil =>
    simp only [exec, Option.some.injEq] at hexec
    exact ⟨t, rfl, hexec ▸ hview⟩
  | cons a rest ih =>
    simp only [exec, Option.bind_eq_some_iff] at hexec
    obtain ⟨s₁, hstep, hrest⟩ := hexec
    cases hconcerns : concerns a with
    | false =>
      -- the observer does not notice, so the action is left out
      rw [List.filter_cons_of_neg (by simp [hconcerns])]
      exact ih ((h.respects s a s₁ hconcerns hstep).trans hview) hrest
    | true =>
      obtain ⟨t₁, ht, hview₁⟩ := h.consistent s t a s₁ hconcerns hview hstep
      obtain ⟨t', hexec', hview'⟩ := ih hview₁ hrest
      rw [List.filter_cons_of_pos hconcerns]
      exact ⟨t', by simp only [exec, ht, Option.bind_some, hexec'], hview'⟩

/-- Two runs with the same actions that concern the observer look the same to it. -/
theorem Unwinds.view_eq (h : Unwinds step view concerns) {as bs : List α} {s s' t t' : σ}
    (hview : view s = view t) (hs : exec step s as = some s') (ht : exec step t bs = some t')
    (hsame : as.filter concerns = bs.filter concerns) : view s' = view t' := by
  obtain ⟨u, hu, hviewu⟩ := h.exec_purge hview hs
  obtain ⟨v, hv, hviewv⟩ := h.exec_purge rfl ht
  rw [← hsame, hu] at hv
  rw [hviewu, hviewv, Option.some.inj hv]

end Machine
