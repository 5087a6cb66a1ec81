import Mathlib.NumberTheory.LucasPrimality
import Mathlib.Data.List.Prime

/-!
# Primality from a factored predecessor

Lucas' test in the form in which a certificate of a large prime is written down:
the predecessor of `p` as a product of primes, and a witness whose order modulo
`p` is the whole predecessor.
-/

namespace NullaRelay.Lucas

theorem prime_of_factors {p : ℕ} (a : ZMod p) (factors : List ℕ)
    (hprime : ∀ q ∈ factors, q.Prime) (hprod : factors.prod = p - 1)
    (hone : a ^ (p - 1) = 1) (hne : ∀ q ∈ factors, a ^ ((p - 1) / q) ≠ 1) :
    p.Prime := by
  refine lucas_primality p a hone ?_
  intro q hq hdvd
  rw [← hprod] at hdvd
  obtain ⟨r, hr, hqr⟩ := (Prime.dvd_prod_iff hq.prime).1 hdvd
  have heq : q = r := (Nat.prime_dvd_prime_iff_eq hq (hprime r hr)).1 hqr
  exact heq ▸ hne r hr

end NullaRelay.Lucas
