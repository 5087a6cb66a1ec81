import NullaRelay.ProofHub.RangeWire
import NullaRelay.ScanProof.DepositWire

/-!
# Length fields on the wire

The deposit of ScanProof and the range proof of ProofHub are parsed by length fields
of 32 bits. A runtime of 32-bit words adds them to offsets without a check, and both
parsers panic where the sum wraps around, and nowhere else.
-/

namespace NullaRelay

open NullaRelay.Frame

/-- Both parsers read in range exactly where the length fields fit into the words of
the machine; of a deposit the origin and the commitment are looked at before. -/
theorem wire_reads_in_range_iff {A L : Type} (T : ScanProof.Config A L) (s : ScanProof.State L)
    (origin : Origin A) (commitment : List UInt8) (rp : BoundedVec UInt8 T.maxRangeProofSize)
    (hints : BoundedVec UInt8 4096) (w : ℕ) (verifyStarkRange : List UInt8 → UInt64 → Bool)
    (verifyStarkDepositCommit : List UInt8 → UInt64 → U8Array 32 → Bool) (bytes : List UInt8)
    (rpCommitment : U8Array 32) (hw : 32 ≤ w) (hlen : bytes.length < 2 ^ (w - 1)) :
    (ScanProof.depositPublic T s origin commitment rp hints ≠ .error .trap ↔
      ((∃ who, origin = .signed who) → commitment.length = 32 →
        ScanProof.DepositLengthFits T rp.val)) ∧
    ((∃ b, ProofHub.verifyRangeProof w verifyStarkRange verifyStarkDepositCommit bytes
      rpCommitment = some b) ↔ ProofHub.RangeLengthsFit w bytes) := by
  constructor
  · rw [ne_eq, ScanProof.depositPublic_trap_iff]
    tauto
  · rw [← not_iff_not, ← ProofHub.parseRangeProof_panic_iff hw hlen,
      ← ProofHub.verifyRangeProof_eq_none_iff, ← Option.isSome_iff_exists,
      Option.not_isSome_iff_eq_none]

section Example

/-- Thirteen bytes whose length field is the largest. -/
def longestLength : List UInt8 := [1, 255, 255, 255, 255, 0, 0, 0, 0, 0, 0, 0, 0]

/-- On the 32-bit runtime both parsers panic on it. -/
theorem longest_length_panics :
    ScanProof.depositPublic ScanProof.vectorConfig (ScanProof.genesis fun _ => 100)
        (.signed (U8Array.zero 32)) (U8Array.zero 32).toList
        ⟨longestLength, by simp [longestLength, ScanProof.vectorConfig]⟩ BoundedVec.empty =
      .error .trap ∧
    ∀ verifyStarkRange verifyStarkDepositCommit rpCommitment,
      ProofHub.verifyRangeProof 32 verifyStarkRange verifyStarkDepositCommit longestLength
        rpCommitment = none := by
  refine ⟨ScanProof.depositPublic_trap_iff.2 ⟨⟨_, rfl⟩, rfl, fun hfits => ?_⟩, fun _ _ _ => ?_⟩
  · have hlt := hfits (by decide) rfl
    revert hlt
    simp only [ScanProof.vectorConfig]
    decide
  · refine ProofHub.verifyRangeProof_eq_none_iff.2
      ((ProofHub.parseRangeProof_panic_iff le_rfl (by decide)).2 fun hfits => ?_)
    have hlt := (hfits rfl (by decide)).1
    revert hlt
    decide

/-- A well-formed deposit does not trap, and 64-bit words hold the longest length. -/
theorem short_length_in_range :
    (ScanProof.depositPublic ScanProof.vectorConfig (ScanProof.genesis fun _ => 100)
        (.signed (U8Array.zero 32)) (U8Array.zero 32).toList (ScanProof.depositBytes 1)
        BoundedVec.empty ≠ .error .trap) ∧
    ∃ b, ProofHub.verifyRangeProof 64 (fun _ _ => true) (fun _ _ _ => true) longestLength
      (U8Array.zero 32) = some b := by
  obtain ⟨hdeposit, hrange⟩ := wire_reads_in_range_iff ScanProof.vectorConfig
    (ScanProof.genesis fun _ => 100) (.signed (U8Array.zero 32)) (U8Array.zero 32).toList
    (ScanProof.depositBytes 1) BoundedVec.empty 64 (fun _ _ => true) (fun _ _ _ => true)
    longestLength (U8Array.zero 32) (by norm_num) (by decide)
  refine ⟨hdeposit.2 fun _ _ _ _ => ?_,
    hrange.2 (ProofHub.rangeLengthsFit_of_le le_rfl (by decide))⟩
  simp only [ScanProof.vectorConfig]
  decide

end Example

end NullaRelay
