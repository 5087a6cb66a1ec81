import NullaRelay.Foundations.LittleEndian
import NullaRelay.Foundations.WordSize
import NullaRelay.Frame.Dispatch

/-!
# The wire format of a range proof

The range proof of a deposit is two STARK proofs with a length field each and the
value between them. Every read checks its end in the words of the runtime before it
slices; a length field that wraps around passes the check and panics. The STARK checks
are parameters.
-/

namespace NullaRelay.ProofHub

open NullaRelay.Frame LittleEndian WordSize

/-- `[1][len: u32][range proof][value: u64][len: u32][commitment proof]`. -/
def parseRangeProof (usizeBits : ℕ) (bytes : List UInt8) :
    Except ReadError (List UInt8 × UInt64 × List UInt8) := do
  ensure (bytes.head? = some 1) .refused
  let (rlen, off) ← readBytes usizeBits bytes 1 4
  let (rangeBytes, off) ← readBytes usizeBits bytes off (leNat rlen)
  let (value, off) ← readBytes usizeBits bytes off 8
  let (clen, off) ← readBytes usizeBits bytes off 4
  let (commitBytes, _) ← readBytes usizeBits bytes off (leNat clen)
  pure (rangeBytes, UInt64.ofNat (leNat value), commitBytes)

/-- `verify_range_proof`: false for malformed bytes, and no result after a panic. -/
def verifyRangeProof (usizeBits : ℕ) (verifyStarkRange : List UInt8 → UInt64 → Bool)
    (verifyStarkDepositCommit : List UInt8 → UInt64 → U8Array 32 → Bool)
    (rangeProof : List UInt8) (rpCommitment : U8Array 32) : Option Bool :=
  match parseRangeProof usizeBits rangeProof with
  | .ok (rangeBytes, value, commitBytes) =>
      some (verifyStarkRange rangeBytes value &&
        verifyStarkDepositCommit commitBytes value rpCommitment)
  | .error .refused => some false
  | .error .panic => none

/-- The length field of the range proof. -/
def rangeLength (bytes : List UInt8) : ℕ := leNat ((bytes.drop 1).take 4)

/-- Where the commitment proof starts: behind the range proof, the value and the second
length field. -/
def commitStart (bytes : List UInt8) : ℕ := 5 + rangeLength bytes + 8 + 4

/-- The length field of the commitment proof. -/
def commitLength (bytes : List UInt8) : ℕ :=
  leNat ((bytes.drop (5 + rangeLength bytes + 8)).take 4)

/-- Each length field that is there fits into a word with the offset behind it. -/
def RangeLengthsFit (usizeBits : ℕ) (bytes : List UInt8) : Prop :=
  bytes.head? = some 1 → 5 ≤ bytes.length →
    5 + rangeLength bytes < 2 ^ usizeBits ∧
      (commitStart bytes ≤ bytes.length →
        commitStart bytes + commitLength bytes < 2 ^ usizeBits)

variable {w : ℕ} {bytes : List UInt8}

theorem leNat_take_four_lt (l : List UInt8) : leNat (l.take 4) < 2 ^ 32 := by
  have hlen : (l.take 4).length ≤ 4 := by simp
  calc
    leNat (l.take 4) < 256 ^ (l.take 4).length := leNat_lt _
    _ ≤ 256 ^ 4 := Nat.pow_le_pow_right (by norm_num) hlen
    _ = 2 ^ 32 := by norm_num

/-- The bytes are parsed without a panic exactly where their length fields fit. -/
theorem parseRangeProof_panic_iff (hw : 32 ≤ w) (hlen : bytes.length < 2 ^ (w - 1)) :
    parseRangeProof w bytes = .error .panic ↔ ¬ RangeLengthsFit w bytes := by
  have hword : 2 ^ (w - 1) * 2 = 2 ^ w := Nat.two_pow_pred_mul_two (by omega)
  have hhalf : 2 ^ 31 ≤ 2 ^ (w - 1) := Nat.pow_le_pow_right two_pos (by omega)
  have hlen' : bytes.length < 2 ^ w := by omega
  have hrange := leNat_take_four_lt (bytes.drop 1)
  have hcommit := leNat_take_four_lt (bytes.drop (5 + rangeLength bytes + 8))
  rw [← rangeLength] at hrange
  rw [← commitLength] at hcommit
  by_cases hhead : bytes.head? = some 1
  · have hpos : 1 ≤ bytes.length := by
      cases bytes with
      | nil => cases hhead
      | cons b bytes => simp
    rw [parseRangeProof, ensure_pos hhead, ok_bind,
      readBytes_bind_panic_iff hlen' hpos (by omega), or_iff_right (by omega), RangeLengthsFit,
      Classical.not_imp, and_iff_right hhead, Classical.not_imp]
    refine and_congr_right fun hfive => ?_
    change (readBytes w bytes 5 (rangeLength bytes) >>= _) = _ ↔ _
    rw [readBytes_bind_panic_iff hlen' hfive (by omega), not_and_or, Nat.not_lt,
      Classical.not_imp, Nat.not_lt]
    refine or_congr_right ?_
    constructor
    · rintro ⟨hvalue, hpanic⟩
      rw [readBytes_bind_panic_iff hlen' hvalue (by omega), or_iff_right (by omega)] at hpanic
      obtain ⟨hclen, hpanic⟩ := hpanic
      rw [readBytes_bind_panic_iff hlen' hclen (by omega), or_iff_right (by omega)] at hpanic
      obtain ⟨hend, hpanic⟩ := hpanic
      have hstart : commitStart bytes ≤ bytes.length := hend
      change (readBytes w bytes (commitStart bytes) (commitLength bytes) >>= _) = _ at hpanic
      rw [readBytes_bind_panic_iff hlen' hstart (by omega)] at hpanic
      exact ⟨hstart, hpanic.resolve_right fun h => pure_ne_error h.2⟩
    · rintro ⟨hstart, hwraps⟩
      have hvalue : 5 + rangeLength bytes + 8 + 4 ≤ bytes.length := hstart
      refine ⟨by omega, ?_⟩
      rw [readBytes_bind_panic_iff hlen' (by omega) (by omega), or_iff_right (by omega),
        and_iff_right (by omega)]
      rw [readBytes_bind_panic_iff hlen' (by omega) (by omega), or_iff_right (by omega),
        and_iff_right hvalue]
      change (readBytes w bytes (commitStart bytes) (commitLength bytes) >>= _) = _
      exact (readBytes_bind_panic_iff hlen' hstart (by omega)).2 (.inl hwraps)
  · have hfit : RangeLengthsFit w bytes := fun h => absurd h hhead
    simp [hfit, parseRangeProof, ensure, hhead, bind, Except.bind]

variable {verifyStarkRange : List UInt8 → UInt64 → Bool}
  {verifyStarkDepositCommit : List UInt8 → UInt64 → U8Array 32 → Bool} {rpCommitment : U8Array 32}

theorem verifyRangeProof_eq_none_iff : verifyRangeProof w verifyStarkRange
    verifyStarkDepositCommit bytes rpCommitment = none ↔
      parseRangeProof w bytes = .error .panic := by
  rw [verifyRangeProof]
  cases parseRangeProof w bytes with
  | ok fields => simp
  | error e => cases e <;> simp

/-- On a machine of 64 bits both fields always fit. -/
theorem rangeLengthsFit_of_le (hw : 64 ≤ w) (hlen : bytes.length < 2 ^ (w - 1)) :
    RangeLengthsFit w bytes := by
  have hword : 2 ^ (w - 1) * 2 = 2 ^ w := Nat.two_pow_pred_mul_two (by omega)
  have hhalf : 2 ^ 63 ≤ 2 ^ (w - 1) := Nat.pow_le_pow_right two_pos (by omega)
  have hrange := leNat_take_four_lt (bytes.drop 1)
  have hcommit := leNat_take_four_lt (bytes.drop (5 + rangeLength bytes + 8))
  rw [← rangeLength] at hrange
  rw [← commitLength] at hcommit
  intro _ _
  refine ⟨by omega, fun hstart => ?_⟩
  omega

end NullaRelay.ProofHub
