import ContractPinger.ForStd.Tally

/-!
# Payments from several accounts

Whoever pays, and in whatever order: with fewer payments than would empty every account of its
share, some account has one share left.

## Key results

- `le_payAll`: an account has lost no more than a payment at its largest for each one made
- `exists_le_payAll`: the pigeonhole rule for accounts
-/

namespace Accounts

variable {κ : Type*} [DecidableEq κ]

/-- Pay an amount from one account; what it does not hold is not paid. -/
def pay (balances : κ → ℕ) (payment : κ × ℕ) : κ → ℕ :=
  Function.update balances payment.1 (balances payment.1 - payment.2)

/-- What is left after the payments. -/
def payAll (balances : κ → ℕ) (payments : List (κ × ℕ)) : κ → ℕ :=
  payments.foldl pay balances

@[simp] theorem payAll_nil (balances : κ → ℕ) : payAll balances [] = balances := rfl

/-- The last payment is made from the balances that those before it leave. -/
theorem payAll_concat (balances : κ → ℕ) (payments : List (κ × ℕ)) (payment : κ × ℕ) :
    payAll balances (payments ++ [payment]) = pay (payAll balances payments) payment := by
  rw [payAll, List.foldl_append]
  rfl

/-- A payment adds to no account. -/
theorem pay_le (balances : κ → ℕ) (payment : κ × ℕ) (k : κ) :
    pay balances payment k ≤ balances k := by
  rw [pay, Function.update_apply]
  split
  · rename_i heq
    rw [heq]
    exact Nat.sub_le _ _
  · exact Nat.le_refl _

/-- An account has lost no more than a payment at its largest for each one made from it. -/
theorem le_payAll {payments : List (κ × ℕ)} {n : ℕ} (balances : κ → ℕ)
    (h : ∀ payment ∈ payments, payment.2 ≤ n) (k : κ) :
    balances k ≤ payAll balances payments k +
      (payments.countP fun payment => payment.1 == k) * n := by
  -- on the payments from the last back, as the account is drawn on
  induction payments using List.reverseRecOn with
  | nil => simp
  | append_singleton payments payment ih =>
    have hbefore := ih fun p hp => h p (List.mem_append_left _ hp)
    have hlast := h payment (List.mem_append_right _ List.mem_cons_self)
    rw [payAll_concat, List.countP_append, List.countP_singleton, pay, Function.update_apply]
    by_cases hk : k = payment.1
    · subst hk
      rw [if_pos rfl, if_pos (beq_self_eq_true payment.1), Nat.add_mul, Nat.one_mul]
      omega
    · rw [if_neg hk, if_neg (by simpa using fun heq => hk heq.symm), Nat.add_zero]
      -- another account was paid from: this one is as it was
      exact hbefore

/-- The pigeonhole rule for accounts: when each of them can make `share` payments on top of
    its reserve, and the payments made are fewer than the shares of all, some account can make
    one more. -/
theorem exists_le_payAll {keys : List κ} (hnd : keys.Nodup) {payments : List (κ × ℕ)}
    {balances : κ → ℕ} {reserve share n : ℕ} (h : ∀ payment ∈ payments, payment.2 ≤ n)
    (hlength : payments.length < keys.length * share)
    (hfunded : ∀ k ∈ keys, reserve + share * n ≤ balances k) :
    ∃ k ∈ keys, reserve + n ≤ payAll balances payments k := by
  -- somebody has made fewer payments than its share
  obtain ⟨k, hk, hfewer⟩ := List.exists_countP_lt hnd Prod.fst hlength
  refine ⟨k, hk, ?_⟩
  have hlost := le_payAll balances h k
  have hheld := hfunded k hk
  have hshare := Nat.mul_le_mul_right n (Nat.succ_le_of_lt hfewer)
  rw [Nat.succ_mul] at hshare
  omega

end Accounts
