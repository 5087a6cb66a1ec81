import NullaRelay.Frame.Dispatch

/-!
# What pallets rely on in a currency

The pallets see the currency through its transfers only. Here the balances are read off
the ledger: a transfer that succeeds was covered and moves its amount, so an account
gains what it is paid and loses no more than it pays.
-/

namespace NullaRelay.Frame

variable {A L : Type} [DecidableEq A]

/-- A transfer that succeeds moves an amount that the source has. -/
structure Currency.Moves (c : Currency A L) (free : L → A → ℕ) : Prop where
  covered : ∀ {l l' a b n er}, c.transfer l a b n er = some l' → n ≤ free l a
  moved : ∀ {l l' a b n er}, c.transfer l a b n er = some l' → free l' = moveBalance (free l) a b n

theorem balances_transfer_eq_some {free free' : A → ℕ} {source dest : A} {n : ℕ}
    {er : ExistenceRequirement} : balances.transfer free source dest n er = some free' ↔
      n ≤ free source ∧ moveBalance free source dest n = free' := by
  simp [balances]

theorem balances_moves : (balances (A := A)).Moves id where
  covered h := (balances_transfer_eq_some.1 h).1
  moved h := (balances_transfer_eq_some.1 h).2.symm

variable {c : Currency A L} {free : L → A → ℕ} {l l' : L} {source dest : A} {n : ℕ}
  {er : ExistenceRequirement}

/-- An account that is paid by another gains the amount. -/
theorem Currency.Moves.paid (h : c.Moves free) (hpay : c.transfer l source dest n er = some l')
    (hne : source ≠ dest) : free l' dest = free l dest + n := by
  rw [h.moved hpay, moveBalance_dest hne]

/-- An account that pays loses no more than the amount. -/
theorem Currency.Moves.pays (h : c.Moves free)
    (hpay : c.transfer l source dest n er = some l') : free l source ≤ free l' source + n := by
  have hcovered := h.covered hpay
  rw [h.moved hpay]
  by_cases hne : source = dest
  · subst hne
    simp only [moveBalance, Function.update_self]
    omega
  · rw [moveBalance_source hne]
    omega

end NullaRelay.Frame
