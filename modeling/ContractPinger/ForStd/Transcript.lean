import ContractPinger.ForStd.Machine

/-!
# Transcripts

A machine may output something with every action it performs. What it has output by the end
of a run is the run's transcript, and a rule carries a relation between the transcript and
the state along the run, as the invariant rule carries a property of the state.

Nothing here is about a particular program.
-/

namespace Machine

variable {σ α β : Type*} {step : σ → α → Option σ} {s s' : σ}

/-- What performing the actions in order outputs. -/
def transcript (step : σ → α → Option σ) (output : σ → α → List β) (s : σ) : List α → List β
  | [] => []
  | a :: rest =>
    output s a ++ (step s a).elim [] fun s' => transcript step output s' rest

/-- Performing one action more outputs more. -/
theorem transcript_concat (output : σ → α → List β) {as : List α}
    (h : exec step s as = some s') (a : α) :
    transcript step output s (as ++ [a]) = transcript step output s as ++ output s' a := by
  induction as generalizing s with
  | nil =>
    simp only [exec, Option.some.injEq] at h
    subst h
    show output s a ++ (step s a).elim [] (fun _ => []) = output s a
    cases step s a <;> exact List.append_nil _
  | cons b rest ih =>
    simp only [exec, Option.bind_eq_some_iff] at h
    obtain ⟨s₁, hstep, hrest⟩ := h
    rw [List.cons_append, transcript, transcript, hstep, List.append_assoc]
    exact congrArg (output s b ++ ·) (ih hrest)

/-- The transcript rule: what holds of the initial state and an empty transcript, and is kept
    by every step with its output, holds at the end of every run. -/
theorem exec_transcript {output : σ → α → List β} {I : List β → σ → Prop} (hinit : I [] s)
    (hstep : ∀ said s₁ a s₂, Reachable step s s₁ → I said s₁ → step s₁ a = some s₂ →
      I (said ++ output s₁ a) s₂)
    {as : List α} (h : exec step s as = some s') : I (transcript step output s as) s' := by
  refine exec_invariant (I := fun as s' => I (transcript step output s as) s') hinit ?_ h
  intro before s₁ a s₂ hbefore hinv ha
  rw [transcript_concat output hbefore]
  exact hstep _ s₁ a s₂ (reachable_of_exec hbefore) hinv ha

end Machine
