import NullaRelay.ProofHub.SpendBlocks

/-!
# The circuit of a v2 spend accepts the prover's trace

With the state of every row built by its block, the other columns satisfy their
constraints as they were filled: the bits add up to the values, the siblings change at
the links only, and the values balance. The hashes that the blocks compute are those
that the public inputs were derived from.
-/

namespace NullaRelay.ProofHub.SpendAir

open Air V2

variable {blake3 : List UInt8 → U8Array 32} {w : SpendWitness} {cols : Table} {a : ℕ}

/-- The bits of a value add up to it. -/
theorem Filled.sum (h : Filled w cols) (x : UInt64) (ha : a = 0 ∨ a = 64)
    (hbit : ∀ i, i < 64 → cols (a + i) 4 = bitElement x i) (hacc : cols a 5 = 0)
    (hpow : cols a 6 = 1) :
    cols (a + 63) 5 + cols (a + 63) 4 * cols (a + 63) 6 = ofU64 x := by
  have hrange (i : ℕ) (hi : i < 63) : IsRstep (a + i) := by
    unfold IsRstep
    omega
  obtain ⟨hp, hs⟩ := acc_eq_of_bits x.toNat (fun i => cols i 4) (fun i => cols i 5)
    (fun i => cols i 6) a 63 (fun i hi => (hbit i (by omega)).trans (bitElement_eq x i))
    (fun i hi => (h.sums _ (hrange i hi)).1) (fun i hi => (h.sums _ (hrange i hi)).2) hacc hpow
  have hsplit : x.toNat = x.toNat % 2 ^ 63 + 2 ^ 63 * (x.toNat / 2 ^ 63 % 2) := by
    rw [← Nat.mod_pow_succ, Nat.mod_eq_of_lt x.toNat_lt]
  rw [hs, hp, hbit 63 (by decide), bitElement_eq, ofU64, BaseElement.new]
  conv_rhs => rw [hsplit]
  push_cast
  ring

theorem Filled.range (h : Filled w cols) (i : ℕ) :
    RangeStep i (rowAt cols i) (rowAt cols (i + 1)) := by
  refine ⟨h.sums i, ?_, ?_⟩
  · rintro rfl
    have hsum := h.sum w.v (.inl rfl) (fun i hi => ?_) h.first.1 h.first.2
    · exact ⟨h.second.1, h.second.2, hsum.trans (h.values 63 (by decide)).1.symm⟩
    · rw [h.bits, if_neg (by omega), if_pos (by omega), Nat.zero_add]
  · rintro rfl
    have hsum := h.sum w.cv (.inr rfl) (fun i hi => ?_) h.second.1 h.second.2
    · exact hsum.trans (h.values 127 (by decide)).2.symm
    · rw [h.bits, if_neg (by omega), if_neg (by omega), if_pos (by omega), Nat.add_sub_cancel_left]

theorem Filled.bit (h : Filled w cols) (r : ℕ) : cols r 4 = 0 ∨ cols r 4 = 1 := by
  have hnew (n : ℕ) : BaseElement.new (n &&& 1) = 0 ∨ BaseElement.new (n &&& 1) = 1 := by
    rw [Nat.and_one_is_mod]
    rcases Nat.mod_two_eq_zero_or_one n with h0 | h1
    · rw [h0]
      exact .inl Nat.cast_zero
    · rw [h1]
      exact .inr Nat.cast_one
  rw [h.bits]
  split_ifs
  · exact hnew _
  · exact hnew _
  · exact hnew _
  · exact .inl rfl

/-- The sibling changes at the links only. -/
theorem Filled.sibling_frozen (h : Filled w cols) {i : ℕ} (hi : i < 8191) (hlmrk : ¬ IsLmrk i)
    (hlchg : i ≠ stepLchg) : (cols (i + 1) 9, cols (i + 1) 10) = (cols i 9, cols i 10) := by
  rw [isLmrk_iff] at hlmrk
  unfold stepLchg at hlchg
  rw [h.siblings (i + 1) (by omega)]
  by_cases hnote : i + 1 < 385
  · rw [if_pos hnote, h.siblings i (by omega), if_pos (by omega)]
  · rw [if_neg hnote]
    by_cases hpath : i + 1 < 5505
    · have hlevel : (i + 1 - 385) / 256 = (i - 385) / 256 := by omega
      rw [if_pos hpath, h.siblings i (by omega), if_neg (by omega), if_pos (by omega), hlevel]
    · rw [if_neg hpath, h.siblings i (by omega), if_neg (by omega), if_neg (by omega)]

/-- The value equations of the two modes. -/
def Balanced (w : SpendWitness) (priceOrAmount mode : UInt64) : Prop :=
  mode = 1 ∧ w.v.toNat = w.cv.toNat + priceOrAmount.toNat ∨
    mode = 0 ∧ w.v = priceOrAmount ∧ w.cv = 0 ∧ w.cb = U8Array.zero 32 ∧ w.cpkd = U8Array.zero 32

section Complete

variable {priceOrAmount mode : UInt64}

theorem Balanced.value (h : Balanced w priceOrAmount mode) :
    ofU64 w.v = ofU64 mode * ofU64 w.cv + ofU64 priceOrAmount ∧
      (1 - ofU64 mode) * ofU64 w.cv = 0 := by
  rcases h with ⟨rfl, hv⟩ | ⟨rfl, hv, hcv, -⟩
  · rw [ofU64, ofU64, ofU64, ofU64, hv]
    simp [BaseElement.new]
  · rw [hv, hcv]
    simp [ofU64, BaseElement.new]

theorem Balanced.sharesKeys (h : Balanced w priceOrAmount mode) :
    SharesKeys (provePublicInputs blake3 w priceOrAmount mode) w := by
  refine ⟨rfl, ?_⟩
  rcases h with ⟨rfl, -⟩ | ⟨rfl, -, -, -, hcpkd⟩
  · rfl
  · rw [hcpkd]
    rfl

theorem Balanced.changeLeaf (h : Balanced w priceOrAmount mode) :
    unpack (provePublicInputs blake3 w priceOrAmount mode).changeLeaf =
      (poseidonHashes blake3).note w.cv (unpack w.cb) (unpack w.cpkd) := by
  rcases h with ⟨rfl, -⟩ | ⟨rfl, -, hcv, hcb, hcpkd⟩
  · exact unpack_noteHash _ _ _ _
  · rw [hcv, hcb, hcpkd]
    exact unpack_noteHash _ _ _ _

/-- All steps of a table whose right half stays to the end. -/
theorem Built.runs (h : Built blake3 (provePublicInputs blake3 w priceOrAmount mode) w 45 cols)
    (hbal : Balanced w priceOrAmount mode) {x : BaseElement}
    (hlast : ∀ i, 5504 ≤ i → i < 8192 → cols i 11 = x) {i : ℕ} (hi : i < 8191) :
    StateStep blake3 (provePublicInputs blake3 w priceOrAmount mode) i (rowAt cols i)
        (rowAt cols (i + 1)) ∧
      RangeStep i (rowAt cols i) (rowAt cols (i + 1)) ∧
      CarryStep blake3 (provePublicInputs blake3 w priceOrAmount mode) i (rowAt cols i)
        (rowAt cols (i + 1)) := by
  obtain ⟨hv, hcv⟩ := h.filled.values i (by omega)
  obtain ⟨hv', hcv'⟩ := h.filled.values (i + 1) (by omega)
  have hb := h.filled.blinding i (by omega)
  have hb' := (h.filled.blinding (i + 1) (by omega)).trans hb.symm
  refine ⟨?_, h.filled.range i, ?_⟩
  · by_cases hactive : i < 5760
    · exact h.states i hactive
    · have hidle : kind i = .idle := if_pos (show 45 ≤ i / 128 by omega)
      rw [StateStep, hidle]
      trivial
  constructor
  · exact h.filled.bit i
  · exact ⟨congrArg Prod.fst hb', congrArg Prod.snd hb'⟩
  · exact ⟨hv'.trans hv.symm, hcv'.trans hcv.symm⟩
  · intro hlmrk hlchg
    have hsib := h.filled.sibling_frozen hi hlmrk hlchg
    exact ⟨congrArg Prod.fst hsib, congrArg Prod.snd hsib⟩
  · rintro ⟨hlo, hhi, hmod⟩
    unfold stepMrkBase at hlo hmod
    unfold stepLchg at hhi
    have hlevel : (i + 1 - 385) / 256 = (i - 385) / 256 := by omega
    show cols (i + 1) 4 = cols i 4
    rw [h.filled.bits, h.filled.bits, if_pos (by omega), if_pos (by omega), hlevel]
  · by_cases hactive : i < 5760
    · exact h.right i hactive
    · rw [if_neg (by rw [isLmrk_iff]; omega)]
      exact (hlast (i + 1) (by omega) (by omega)).trans (hlast i (by omega) (by omega)).symm
  · show cols i 12 = ofU64 mode * cols i 13 + ofU64 priceOrAmount
    rw [hv, hcv]
    exact hbal.value.1
  · show (1 - ofU64 mode) * cols i 13 = 0
    rw [hcv]
    exact hbal.value.2
  · rintro rfl
    have hlo : cols 0 7 = (unpack w.b).1 := congrArg Prod.fst hb
    have hhi : cols 0 8 = (unpack w.b).2 := congrArg Prod.snd hb
    show state (rowAt cols 0) = ![nullifierIv blake3, cols 0 7, cols 0 8, 0]
    rw [state_rowAt, h.initial, hlo, hhi]

section Trace

variable {t : Trace BaseElement 8192 14}

theorem Filled.values_row (h : Filled w cols) (hrow : ∀ i, i < 8192 → t.row i = rowAt cols i) :
    t.row 0 12 = ofU64 w.v ∧ t.row 0 13 = ofU64 w.cv := by
  rw [hrow 0 (by decide)]
  exact h.values 0 (by decide)

theorem Filled.blindingOf_eq (h : Filled w cols)
    (hrow : ∀ i, i < 8192 → t.row i = rowAt cols i) : blindingOf t = unpack w.b := by
  rw [blindingOf, hrow 0 (by decide)]
  exact h.blinding 0 (by decide)

theorem Filled.bitOf_eq (h : Filled w cols) (hrow : ∀ i, i < 8192 → t.row i = rowAt cols i)
    {d : ℕ} (hd : d < 20) : bitOf t d = w.index.toNat / 2 ^ d % 2 := by
  have hcell : t.row (384 + 256 * d + 1) 4 = BaseElement.new (w.index.toNat / 2 ^ d % 2) := by
    have hlevel : (384 + 256 * d + 1 - 385) / 256 = d := by omega
    rw [hrow _ (by omega)]
    show cols (384 + 256 * d + 1) 4 = _
    rw [h.bits, if_pos (by omega), hlevel, SpendWitness.bit, Nat.and_one_is_mod,
      Nat.shiftRight_eq_div_pow]
  rw [bitOf, hcell]
  rcases Nat.mod_two_eq_zero_or_one (w.index.toNat / 2 ^ d) with h0 | h1
  · rw [h0]
    exact if_pos Nat.cast_zero
  · rw [h1]
    exact if_neg (by rw [BaseElement.new, Nat.cast_one]; exact one_ne_zero)

theorem Filled.siblingOf_eq (h : Filled w cols) (hrow : ∀ i, i < 8192 → t.row i = rowAt cols i) :
    (List.range 20).map (siblingOf t) = w.siblings.toList.map unpack := by
  refine List.ext_getElem (by simp) fun d hd hd' => ?_
  have hdepth : d < 20 := by simpa using hd
  have hlevel : (384 + 256 * d + 1 - 385) / 256 = d := by omega
  rw [List.getElem_map, List.getElem_range, List.getElem_map, siblingOf, hrow _ (by omega)]
  show (cols (384 + 256 * d + 1) 9, cols (384 + 256 * d + 1) 10) = _
  rw [h.siblings _ (by omega), if_neg (by omega), if_pos (by omega), hlevel,
    SpendWitness.sibling, List.getD_eq_getElem?_getD, List.getElem?_eq_getElem,
    Option.getD_some]

/-- The levels lead from the note to the root of the public inputs. -/
theorem Filled.root_eq (h : Filled w cols) (hrow : ∀ i, i < 8192 → t.row i = rowAt cols i)
    (hrun : Runs blake3 (provePublicInputs blake3 w priceOrAmount mode) t) :
    nodeOf t 20 = unpack (provePublicInputs blake3 w priceOrAmount mode).root := by
  have hleaf : nodeOf t 0 = (poseidonHashes blake3).note w.v (unpack w.b) (unpack w.pkd) :=
    h.blindingOf_eq hrow ▸ note_eq hrun (h.values_row hrow).1
  have hlevels := Merkle.pathRoot_of_levels (h := (poseidonHashes blake3).merkle) (nodeOf t)
    (siblingOf t) w.index.toNat (n := 20) fun d hd => by
      rw [← h.bitOf_eq hrow hd]
      exact level_eq hrun hd
  rw [hlevels, h.siblingOf_eq hrow, hleaf, ← unpack_noteHash, ← unpack_merklePathRoot]
  rfl

/-- Filled columns and steps that all hold satisfy the circuit. -/
theorem Filled.satisfies (h : Filled w cols) (hrow : ∀ i, i < 8192 → t.row i = rowAt cols i)
    (hbal : Balanced w priceOrAmount mode)
    (hrun : Runs blake3 (provePublicInputs blake3 w priceOrAmount mode) t) :
    (spendAir blake3 (provePublicInputs blake3 w priceOrAmount mode)).Satisfies t := by
  have hfirst : t.row 0 5 = 0 ∧ t.row 0 6 = 1 := by
    rw [hrow 0 (by decide)]
    exact h.first
  have hnullifier : (t.row 65 1, t.row 65 2) =
      unpack (provePublicInputs blake3 w priceOrAmount mode).nullifier := by
    rw [← nullifier_eq hrun, h.blindingOf_eq hrow]
    exact (unpack_packPair _).symm
  have hroot := (root_row hrun).symm.trans (h.root_eq hrow hrun)
  have hchange : (t.row 5697 1, t.row 5697 2) =
      unpack (provePublicInputs blake3 w priceOrAmount mode).changeLeaf := by
    have hcb : (t.row 5505 9, t.row 5505 10) = unpack w.cb := by
      rw [hrow 5505 (by decide)]
      exact h.siblings 5505 (by decide)
    rw [← change_eq hrun (h.values_row hrow).2, hcb, hbal.sharesKeys.2, hbal.changeLeaf]
  constructor
  · intro i hi
    exact evaluateTransition_eq_zero_iff.2 (hrun i (by omega))
  · simp only [spendAir, getAssertions, List.forall_mem_cons]
    exact ⟨hfirst.1, hfirst.2, congrArg Prod.fst hnullifier, congrArg Prod.snd hnullifier,
      congrArg Prod.fst hroot, congrArg Prod.snd hroot, congrArg Prod.fst hchange,
      congrArg Prod.snd hchange, by simp⟩

end Trace

theorem filled_buildSpendTrace (h : SharesKeys (provePublicInputs blake3 w priceOrAmount mode) w) :
    ∃ cols, Filled w cols ∧ ∀ i, i < 8192 → (buildSpendTrace blake3 w).row i = rowAt cols i := by
  obtain ⟨hbuilt, -⟩ := @built_spendTable blake3 _ w h
  exact ⟨_, hbuilt.filled, fun i hi => Trace.row_ofRows _ hi⟩

/-- The prover's trace satisfies the circuit wherever the value equations hold. -/
theorem Balanced.satisfies (h : Balanced w priceOrAmount mode) :
    (spendAir blake3 (provePublicInputs blake3 w priceOrAmount mode)).Satisfies
      (buildSpendTrace blake3 w) := by
  obtain ⟨hbuilt, x, hlast⟩ := @built_spendTable blake3 _ w h.sharesKeys
  have hrow (i : ℕ) (hi : i < 8192) :
      (buildSpendTrace blake3 w).row i = rowAt (spendTable blake3 w) i := Trace.row_ofRows _ hi
  refine hbuilt.filled.satisfies hrow h fun i hi => ?_
  rw [hrow i (by omega), hrow (i + 1) (by omega)]
  exact hbuilt.runs h hlast hi

/-- The circuit accepts the trace that the prover fills, for the public inputs it
derives from the same witness. -/
theorem build_spend_trace_satisfies (blake3 : List UInt8 → U8Array 32) (w : SpendWitness)
    (priceOrAmount mode : UInt64)
    (h : mode = 1 ∧ w.v.toNat = w.cv.toNat + priceOrAmount.toNat ∨
      mode = 0 ∧ w.v = priceOrAmount ∧ w.cv = 0 ∧ w.cb = U8Array.zero 32 ∧
        w.cpkd = U8Array.zero 32) :
    (spendAir blake3 (provePublicInputs blake3 w priceOrAmount mode)).Satisfies
      (buildSpendTrace blake3 w) :=
  Balanced.satisfies h

/-- A purchase of 3 with a note of 5 and a change of 2. -/
def fiveWitness : SpendWitness where
  v := 5
  b := U8Array.zero 32
  pkd := U8Array.zero 32
  index := 6
  siblings := List.Vector.replicate 20 (U8Array.zero 32)
  cv := 2
  cb := U8Array.zero 32
  cpkd := U8Array.zero 32

theorem five_trace_satisfies :
    (fiveWitness.v.toNat = fiveWitness.cv.toNat + (3 : UInt64).toNat) ∧
      (spendAir zeroBlake3 (provePublicInputs zeroBlake3 fiveWitness 3 1)).Satisfies
        (buildSpendTrace zeroBlake3 fiveWitness) :=
  ⟨by decide, build_spend_trace_satisfies zeroBlake3 fiveWitness 3 1 (.inl ⟨rfl, by decide⟩)⟩

/-- The opening that the trace of the purchase has. -/
theorem five_spend_sound :
    (spendAir zeroBlake3 (provePublicInputs zeroBlake3 fiveWitness 3 1)).Satisfies
        (buildSpendTrace zeroBlake3 fiveWitness) ∧
      ∃ (v cv : UInt64) (b cb : U8Array 32) (index : ℕ) (siblings : List.Vector (U8Array 32) 20),
        index < 2 ^ 20 ∧
        unpack (provePublicInputs zeroBlake3 fiveWitness 3 1).nullifier =
          unpack (nullifierHash (poseidonHashes zeroBlake3) b) ∧
        unpack (merklePathRoot (poseidonHashes zeroBlake3) (noteHash (poseidonHashes zeroBlake3) v b
            (provePublicInputs zeroBlake3 fiveWitness 3 1).pkd) index siblings) =
          unpack (provePublicInputs zeroBlake3 fiveWitness 3 1).root ∧
        unpack (provePublicInputs zeroBlake3 fiveWitness 3 1).changeLeaf =
          unpack (noteHash (poseidonHashes zeroBlake3) cv cb
            (provePublicInputs zeroBlake3 fiveWitness 3 1).changePkd) ∧
        ((provePublicInputs zeroBlake3 fiveWitness 3 1).mode = 1 →
          v.toNat = cv.toNat + (provePublicInputs zeroBlake3 fiveWitness 3 1).priceOrAmount.toNat) ∧
        ((provePublicInputs zeroBlake3 fiveWitness 3 1).mode = 0 →
          v = (provePublicInputs zeroBlake3 fiveWitness 3 1).priceOrAmount ∧ cv = 0) := by
  have hbal : Balanced fiveWitness 3 1 := .inl ⟨rfl, by decide⟩
  exact ⟨hbal.satisfies, spend_sound hbal.satisfies⟩

end Complete

end NullaRelay.ProofHub.SpendAir
