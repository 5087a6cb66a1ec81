import Mathlib.Logic.Equiv.Defs
import Mathlib.Tactic.Choose

/-!
# Provers that hide their witness

A prover of three moves draws nonces, sends a first message and answers a challenge. Two
provers hide which of them speaks when for each challenge a bijection of the nonces takes
the transcripts of one to those of the other: drawn uniformly, the nonces then give both
the same distribution. A challenge that is computed from the first message changes
nothing about it.
-/

namespace NullaRelay.WitnessHiding

variable {N M C R : Type*}

/-- A first message from the nonces, and an answer to a challenge. -/
structure Prover (N M C R : Type*) where
  first : N → M
  answer : C → N → R

/-- The two provers have the same transcripts, up to a bijection of the nonces for each
challenge. -/
def SameTranscripts (p q : Prover N M C R) : Prop :=
  ∀ c, ∃ e : N ≃ N, ∀ n, q.first (e n) = p.first n ∧ q.answer c (e n) = p.answer c n

namespace Prover

/-- The transcript where the challenge is computed from the first message. -/
def transcript (p : Prover N M C R) (challenge : M → C) (n : N) : M × R :=
  (p.first n, p.answer (challenge (p.first n)) n)

end Prover

namespace SameTranscripts

variable {p q : Prover N M C R}

/-- One bijection serves all computed challenges. -/
theorem computed (h : SameTranscripts p q) (challenge : M → C) :
    ∃ e : N ≃ N, ∀ n, q.transcript challenge (e n) = p.transcript challenge n := by
  choose e he using h
  have hfirst (c : C) (n : N) : p.first ((e c).symm n) = q.first n := by
    rw [← (he c _).1, Equiv.apply_symm_apply]
  refine ⟨⟨fun n => e (challenge (p.first n)) n,
    fun n => (e (challenge (q.first n))).symm n, fun n => ?_, fun n => ?_⟩, fun n => ?_⟩
  · dsimp only
    rw [(he _ n).1, Equiv.symm_apply_apply]
  · dsimp only
    rw [hfirst, Equiv.apply_symm_apply]
  · obtain ⟨hmessage, hanswer⟩ := he (challenge (p.first n)) n
    rw [Equiv.coe_fn_mk, Prover.transcript, hmessage, hanswer, Prover.transcript]

end SameTranscripts

end NullaRelay.WitnessHiding
