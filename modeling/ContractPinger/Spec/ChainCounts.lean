import ContractPinger.Model.Chain

/-!
# The counts of an account

What a chain does to the transactions it has been sent and to the counts it answers. Left to
itself it sends nothing: what may be outstanding only becomes less. The two counts of an
account are equal exactly while nothing is outstanding from it.

## Key results

- `Moves`: what every step of the chain's own has in common
- `Consistent.none_outstanding`: the conclusion to draw from the two counts of one instant
-/

namespace ContractPinger.Chain

variable {c c' : Chain} {tx : SentTx} {address : Hex} {latest pending : Nat}

/-- The counts of every account are ones it can have. -/
def Consistent (c : Chain) : Prop :=
  ∀ address, c.agrees address (c.latest address) (c.pending address) = true

/-- Equal counts say that nothing is outstanding. -/
theorem Consistent.none_outstanding (h : c.Consistent)
    (hequal : c.pending address ≤ c.latest address) :
    ∀ tx ∈ c.outstanding, tx.address ≠ address := by
  intro tx htx haddress
  have hany : (c.outstanding.any fun other => other.address == address) = true :=
    List.any_eq_true.mpr ⟨tx, htx, beq_iff_eq.mpr haddress⟩
  have hagrees := h address
  rw [agrees, if_pos hany, decide_eq_true_eq] at hagrees
  omega

/-- With nothing new outstanding from an account, it can have the counts it could have. -/
theorem agrees_congr
    (h : ∀ tx, tx.address = address → (tx ∈ c'.outstanding ↔ tx ∈ c.outstanding)) :
    c'.agrees address latest pending = c.agrees address latest pending := by
  have hany : (c'.outstanding.any fun tx => tx.address == address) =
      c.outstanding.any fun tx => tx.address == address := by
    rw [Bool.eq_iff_iff]
    simp only [List.any_eq_true, beq_iff_eq]
    refine exists_congr fun tx => ?_
    constructor
    · rintro ⟨htx, haddress⟩
      exact ⟨(h tx haddress).mp htx, haddress⟩
    · rintro ⟨htx, haddress⟩
      exact ⟨(h tx haddress).mpr htx, haddress⟩
  rw [agrees, agrees, hany]

/-- A step of the chain's own: what may be outstanding becomes less, and the counts follow
    what is outstanding. -/
structure Moves (c c' : Chain) : Prop where
  live : c'.live.Subperm c.live
  consistent : c.Consistent → c'.Consistent

/-- The counts of an account are set once its outstanding transactions have changed. -/
theorem Moves.recount {changed : Chain}
    (h : changed.recount address latest pending = some c')
    (hcounts : changed.latest = c.latest ∧ changed.pending = c.pending)
    (hothers : ∀ tx, tx.address ≠ address → (tx ∈ changed.outstanding ↔ tx ∈ c.outstanding))
    (hlive : changed.live.Subperm c.live) : c.Moves c' := by
  obtain ⟨hagrees, heq⟩ := Option.ite_none_right_eq_some.mp h
  obtain rfl := Option.some.inj heq
  refine ⟨hlive, fun hconsistent other => ?_⟩
  show changed.agrees other (Function.update changed.latest address latest other)
    (Function.update changed.pending address pending other) = true
  -- the address recounted agrees by the guard; any other is counted as before
  by_cases hsame : other = address
  · rw [hsame, Function.update_self, Function.update_self]
    exact hagrees
  · rw [Function.update_of_ne hsame, Function.update_of_ne hsame, hcounts.1, hcounts.2]
    rw [agrees_congr fun tx haddress => hothers tx (haddress ▸ hsame)]
    exact hconsistent other

/-- An account's counts may change by themselves. -/
theorem moves_recount (h : c.recount address latest pending = some c') : c.Moves c' :=
  .recount h ⟨rfl, rfl⟩ (fun _ _ => Iff.rfl) (List.Subperm.refl _)

/-- A node may take in a transaction that was sent. -/
theorem moves_accept (h : c.accept tx latest pending = some c') : c.Moves c' := by
  obtain ⟨hsent, hcounted⟩ := Option.ite_none_right_eq_some.mp h
  refine .recount hcounted ⟨rfl, rfl⟩ (fun other haddress => ?_) ?_
  · rw [List.mem_append, List.mem_singleton, or_iff_left]
    rintro rfl
    exact haddress rfl
  · -- it is in flight no longer, and outstanding instead
    have hmem : tx ∈ c.inFlight := List.contains_iff_mem.mp hsent
    have hperm : (c.inFlight.erase tx ++ c.outstanding ++ [tx]).Perm
        (c.inFlight ++ c.outstanding) :=
      (List.perm_append_singleton _ _).trans
        ((List.perm_cons_erase hmem).symm.append_right c.outstanding)
    rw [List.append_assoc] at hperm
    exact hperm.subperm

/-- A transaction that was sent may get lost on the way. -/
theorem moves_lose (h : c.lose tx = some c') : c.Moves c' := by
  obtain ⟨_, heq⟩ := Option.ite_none_right_eq_some.mp h
  obtain rfl := Option.some.inj heq
  exact ⟨(List.erase_sublist.append_right _).subperm, id⟩

/-- One that was accepted may be mined or dropped. -/
theorem moves_leave (h : c.leave tx latest pending = some c') : c.Moves c' := by
  obtain ⟨_, hcounted⟩ := Option.ite_none_right_eq_some.mp h
  refine .recount hcounted ⟨rfl, rfl⟩ (fun other haddress => ?_)
    (List.erase_sublist.append_left _).subperm
  refine List.mem_erase_of_ne ?_
  rintro rfl
  exact haddress rfl

namespace Moves

/-- What may be outstanding has been so before. -/
theorem mem (h : c.Moves c') (htx : tx ∈ c'.live) : tx ∈ c.live := h.live.subset htx

/-- One live transaction for each address stays one. -/
theorem nodup (h : c.Moves c') (hsingle : (c.live.map SentTx.address).Nodup) :
    (c'.live.map SentTx.address).Nodup := by
  obtain ⟨kept, hperm, hsublist⟩ := h.live
  rw [← (hperm.map SentTx.address).nodup_iff]
  exact hsingle.sublist (hsublist.map SentTx.address)

end Moves

/-! ## Sending -/

/-- Sending counts for nothing. -/
theorem Consistent.send (h : c.Consistent) (txs : List SentTx) : (c.send txs).Consistent := h

/-- What is sent becomes live, and nothing else. -/
theorem mem_live_send {txs : List SentTx} : tx ∈ (c.send txs).live ↔ tx ∈ c.live ∨ tx ∈ txs := by
  simp only [live, send, List.mem_append]
  tauto

/-- A transaction is sent from an address that has no live one. -/
theorem nodup_send (hsingle : (c.live.map SentTx.address).Nodup)
    (hfree : ∀ other ∈ c.live, other.address ≠ tx.address) :
    ((c.send [tx]).live.map SentTx.address).Nodup := by
  have hperm : (c.send [tx]).live.Perm (tx :: c.live) := by
    show ((c.inFlight ++ [tx]) ++ c.outstanding).Perm (tx :: (c.inFlight ++ c.outstanding))
    exact (List.perm_append_singleton tx c.inFlight).append_right c.outstanding
  rw [(hperm.map SentTx.address).nodup_iff, List.map_cons, List.nodup_cons]
  refine ⟨fun hmem => ?_, hsingle⟩
  obtain ⟨other, hother, haddress⟩ := List.mem_map.mp hmem
  exact hfree other hother haddress

end ContractPinger.Chain
