import NullaRelay.Foundations.SigmaProtocol
import NullaRelay.ScanProof.VectorModel
import Mathlib.Algebra.Order.BigOperators.Group.List

/-!
# Balance proofs conserve value

The two loops of `verify_bytes` add up the points of the inputs and take off those of
the outputs. The equation it checks is the one that shows knowledge of a factor of `H`,
so that two accepted responses to one first message make the aggregate a multiple of
`H`. Over independent generators the values of the commitments then agree modulo the
group order, and as integers as long as the sums are below it.
-/

namespace NullaRelay.ScanProof.Verifier

open LittleEndian SigmaProtocol OneOfMany

section Loops

variable {α β γ : Type}

/-- A loop that decodes each entry and folds it in. -/
theorem foldlM_decode (decode : α → Option β) (f : γ → β → γ) (cs : List α) (acc : γ) :
    cs.foldlM (fun acc c => do pure (f acc (← decode c))) acc =
      (cs.mapM decode).map fun ps => ps.foldl f acc := by
  induction cs generalizing acc with
  | nil => rfl
  | cons c cs ih =>
      rw [List.foldlM_cons, List.mapM_cons]
      cases decode c with
      | none => rfl
      | some p =>
          refine (ih (f acc p)).trans ?_
          cases cs.mapM decode with
          | none => rfl
          | some ps => rfl

variable {V : Type} [AddCommGroup V]

theorem foldl_add_eq (ps : List V) (acc : V) : ps.foldl (· + ·) acc = acc + ps.sum := by
  induction ps generalizing acc with
  | nil => exact (add_zero acc).symm
  | cons p ps ih => rw [List.foldl_cons, ih, List.sum_cons, add_assoc]

theorem foldl_sub_eq (ps : List V) (acc : V) : ps.foldl (· - ·) acc = acc - ps.sum := by
  induction ps generalizing acc with
  | nil => exact (sub_zero acc).symm
  | cons p ps ih => rw [List.foldl_cons, ih, List.sum_cons, sub_sub]

end Loops

variable {V : Type} [AddCommGroup V] [Module Scalar V] (P : Primitives V)

/-- The sum of the inputs less the sum of the outputs, when all of them decode. -/
def aggregate (inputs outputs : List (U8Array 32)) : Option V := do
  let ins ← inputs.mapM P.decompress
  let outs ← outputs.mapM P.decompress
  pure (ins.sum - outs.sum)

/-- An opening `v·G + r·H` of a commitment. -/
structure Opening where
  value : ℤ
  blinding : Scalar

def Opening.point (o : Opening) : V :=
  (o.value : Scalar) • P.basepoint + o.blinding • generatorH P

def valueSum (os : List Opening) : ℤ := (os.map Opening.value).sum

def blindingSum (os : List Opening) : Scalar := (os.map Opening.blinding).sum

/-- The commitments are opened one by one. -/
def OpenedBy (commitments : List (U8Array 32)) (os : List Opening) : Prop :=
  List.Forall₂ (fun c o => P.decompress c = some (o.point P)) commitments os

/-- The map whose preimages a balance proof is about. -/
def multipleOfH : Scalar →ₗ[Scalar] V := LinearMap.toSpanSingleton Scalar V (generatorH P)

/-- A proof for the nonce `k`, the first message of which is encoded as `rBytes`. -/
def balanceProof (k : Scalar) (rBytes : U8Array 32) (ins outs : List Opening)
    (publicInputs : List UInt8) : List UInt8 :=
  let w := blindingSum ins - blindingSum outs
  let c := challenge P (k • generatorH P) (w • generatorH P) (blake2_256 P publicInputs)
  rBytes.toList ++ (Scalar.toBytes (answer w k c)).toList

variable {P} {inputs outputs : List (U8Array 32)} {ins outs : List Opening} {agg r : V}

/-- `verify_bytes` checks one equation on the aggregate. -/
theorem verifyBytes_eq_true [DecidableEq V] {proof publicInputs : List UInt8} :
    verifyBytes P proof publicInputs = true ↔
      proof.length = 64 ∧ ∃ i r agg, ProofPublicInputs.decode publicInputs = some i ∧
        P.decompress (sliceAt 32 proof 0) = some r ∧
        aggregate P i.inputCommitments i.newCommitments = some agg ∧
        Scalar.fromBytesModOrder (sliceAt 32 proof 32) • generatorH P =
          r + challenge P r agg (blake2_256 P publicInputs) • agg := by
  simp only [verifyBytes, getD_false_eq_true, foldlM_decode, foldl_add_eq, foldl_sub_eq, zero_add]
  simp only [aggregate, Option.bind_eq_bind, Option.bind_eq_some_iff, Option.map_eq_some_iff,
    Option.guard_eq_some', Option.pure_def, Option.some.injEq, decide_eq_true_eq]
  constructor
  · rintro ⟨i, hi, -, hlen, r, hr, _, ⟨ins, hins, rfl⟩, _, ⟨outs, houts, rfl⟩, heq⟩
    exact ⟨hlen, i, r, _, hi, hr, ⟨ins, hins, outs, houts, rfl⟩, heq⟩
  · rintro ⟨hlen, i, r, _, hi, hr, ⟨ins, hins, outs, houts, rfl⟩, heq⟩
    exact ⟨i, hi, (), hlen, r, hr, _, ⟨ins, hins, rfl⟩, _, ⟨outs, houts, rfl⟩, heq⟩

/-- The relation of a balance proof is about its aggregate. -/
theorem balanceRelation_iff {i : ProofPublicInputs} :
    BalanceRelation P i ↔ ∃ agg, aggregate P i.inputCommitments i.newCommitments = some agg ∧
      ∃ w : Scalar, agg = w • generatorH P := by
  simp only [BalanceRelation, aggregate, Option.bind_eq_bind, Option.bind_eq_some_iff,
    Option.pure_def, Option.some.injEq]
  constructor
  · rintro ⟨ins, outs, hins, houts, w, hw⟩
    exact ⟨_, ⟨ins, hins, outs, houts, rfl⟩, w, hw⟩
  · rintro ⟨_, ⟨ins, hins, outs, houts, rfl⟩, w, hw⟩
    exact ⟨ins, outs, hins, houts, w, hw⟩

/-- Two accepted responses to one first message show the relation that the pallet's
results assume of a verifier. -/
theorem balanceRelation_of_two {i : ProofPublicInputs} {c c' s s' : Scalar}
    (hagg : aggregate P i.inputCommitments i.newCommitments = some agg) (hc : c ≠ c')
    (h : s • generatorH P = r + c • agg) (h' : s' • generatorH P = r + c' • agg) :
    BalanceRelation P i := by
  have hacc : Accepts (multipleOfH P) agg r c s := h
  have hacc' : Accepts (multipleOfH P) agg r c' s' := h'
  exact balanceRelation_iff.2 ⟨agg, hagg, _, (map_extract hc hacc hacc').symm⟩

theorem sum_point (os : List Opening) : (os.map (Opening.point P)).sum =
    (valueSum os : Scalar) • P.basepoint + blindingSum os • generatorH P := by
  induction os with
  | nil => simp [valueSum, blindingSum]
  | cons o os ih =>
      simp only [valueSum, blindingSum] at ih
      simp only [List.map_cons, List.sum_cons, valueSum, blindingSum, ih, Opening.point]
      push_cast
      module

theorem OpenedBy.mapM {cs : List (U8Array 32)} {os : List Opening} (h : OpenedBy P cs os) :
    cs.mapM P.decompress = some (os.map (Opening.point P)) := by
  rw [mapM_eq_some, List.forall₂_map_right_iff]
  exact h

/-- The aggregate in the coordinates of the openings. -/
theorem aggregate_opened (hins : OpenedBy P inputs ins) (houts : OpenedBy P outputs outs) :
    aggregate P inputs outputs = some (((valueSum ins - valueSum outs : ℤ) : Scalar) • P.basepoint
      + (blindingSum ins - blindingSum outs) • generatorH P) := by
  rw [aggregate, hins.mapM, houts.mapM]
  refine congrArg some ?_
  rw [sum_point, sum_point]
  push_cast
  module

/-- A multiple of `H` has no value. -/
theorem valueSum_modEq (hind : LinearIndependent Scalar ![P.basepoint, generatorH P])
    (hins : OpenedBy P inputs ins) (houts : OpenedBy P outputs outs)
    (hagg : aggregate P inputs outputs = some agg) {w : Scalar} (hw : agg = w • generatorH P) :
    valueSum ins ≡ valueSum outs [ZMOD groupOrder] := by
  rw [aggregate_opened hins houts, Option.some.injEq] at hagg
  have heq : ((valueSum ins - valueSum outs : ℤ) : Scalar) • P.basepoint
      + (blindingSum ins - blindingSum outs) • generatorH P =
        (0 : Scalar) • P.basepoint + w • generatorH P := by
    rw [hagg, hw, zero_smul, zero_add]
  have hzero := (Extraction.pair_ext hind heq).1
  rw [Int.cast_sub] at hzero
  exact (ZMod.intCast_eq_intCast_iff _ _ _).1 (sub_eq_zero.1 hzero)

/-- Fewer than `2 ^ 180` values below `2 ^ 64` add up to less than the group order. -/
theorem valueSum_lt {os : List Opening} (hval : ∀ o ∈ os, 0 ≤ o.value ∧ o.value < 2 ^ 64)
    (hlen : os.length < 2 ^ 180) : 0 ≤ valueSum os ∧ valueSum os < groupOrder := by
  have hmap (v : ℤ) (hv : v ∈ os.map Opening.value) : 0 ≤ v ∧ v ≤ 2 ^ 64 := by
    obtain ⟨o, ho, rfl⟩ := List.mem_map.1 hv
    exact ⟨(hval o ho).1, (hval o ho).2.le⟩
  have hsum : valueSum os ≤ (os.map Opening.value).length • (2 ^ 64 : ℤ) :=
    List.sum_le_card_nsmul _ _ fun v hv => (hmap v hv).2
  rw [List.length_map, nsmul_eq_mul] at hsum
  refine ⟨List.sum_nonneg fun v hv => (hmap v hv).1, ?_⟩
  have hlen' : (os.length : ℤ) < 2 ^ 180 := by exact_mod_cast hlen
  calc
    valueSum os ≤ os.length * 2 ^ 64 := hsum
    _ < 2 ^ 180 * 2 ^ 64 := by gcongr
    _ < groupOrder := by norm_num [groupOrder]

/-- Sums that agree modulo the group order are equal when no sum reaches it. -/
theorem valueSum_eq (hins : ∀ o ∈ ins, 0 ≤ o.value ∧ o.value < 2 ^ 64)
    (houts : ∀ o ∈ outs, 0 ≤ o.value ∧ o.value < 2 ^ 64) (hlen : ins.length < 2 ^ 180)
    (hlen' : outs.length < 2 ^ 180) (h : valueSum ins ≡ valueSum outs [ZMOD groupOrder]) :
    valueSum ins = valueSum outs := by
  obtain ⟨hnonneg, hlt⟩ := valueSum_lt hins hlen
  obtain ⟨hnonneg', hlt'⟩ := valueSum_lt houts hlen'
  rw [← Int.emod_eq_of_lt hnonneg hlt, ← Int.emod_eq_of_lt hnonneg' hlt']
  exact h

/-- What the prover of a balanced transfer answers is accepted for every challenge. -/
theorem exists_response (hins : OpenedBy P inputs ins) (houts : OpenedBy P outputs outs)
    (hsum : valueSum ins ≡ valueSum outs [ZMOD groupOrder]) (k c : Scalar) :
    aggregate P inputs outputs = some ((blindingSum ins - blindingSum outs) • generatorH P) ∧
      answer (blindingSum ins - blindingSum outs) k c • generatorH P =
        k • generatorH P + c • (blindingSum ins - blindingSum outs) • generatorH P := by
  refine ⟨?_, ?_⟩
  · have hzero : ((valueSum ins - valueSum outs : ℤ) : Scalar) = 0 := by
      rw [Int.cast_sub, (ZMod.intCast_eq_intCast_iff _ _ _).2 hsum, sub_self]
    rw [aggregate_opened hins houts, hzero, zero_smul, zero_add]
  · have hw : multipleOfH P (blindingSum ins - blindingSum outs) =
        (blindingSum ins - blindingSum outs) • generatorH P := rfl
    exact accepts_answer hw k c

/-- The bytes of a balanced transfer are accepted, whatever the transcript hashes to. -/
theorem verifyBytes_balanceProof [DecidableEq V] (hins : OpenedBy P inputs ins)
    (houts : OpenedBy P outputs outs) (hsum : valueSum ins ≡ valueSum outs [ZMOD groupOrder])
    {i : ProofPublicInputs} {publicInputs : List UInt8}
    (hdec : ProofPublicInputs.decode publicInputs = some i) (hi : i.inputCommitments = inputs)
    (ho : i.newCommitments = outputs) {k : Scalar} {rBytes : U8Array 32}
    (hr : P.decompress rBytes = some (k • generatorH P)) :
    verifyBytes P (balanceProof P k rBytes ins outs publicInputs) publicInputs = true := by
  obtain ⟨hagg, heq⟩ := exists_response hins houts hsum k
    (challenge P (k • generatorH P) ((blindingSum ins - blindingSum outs) • generatorH P)
      (blake2_256 P publicInputs))
  subst hi ho
  refine verifyBytes_eq_true.2 ⟨?_, i, k • generatorH P, _, hdec, ?_, hagg, ?_⟩
  · simp [balanceProof]
  · rw [balanceProof, sliceAt_left, hr]
  · have hslice : sliceAt 32 (balanceProof P k rBytes ins outs publicInputs) (32 + 0) = _ :=
      (sliceAt_right rBytes _ 0).trans (sliceAt_toList _)
    rw [hslice, Scalar.fromBytesModOrder_toBytes]
    exact heq

/-- `verify_bytes` checks the equation of a balance proof. When two challenges have
accepted responses to one first message the values of the commitments add up to the
same on both sides, and whoever opens commitments with the same sums can answer every
challenge. -/
theorem balance_conserves_value [DecidableEq V] (P : Primitives V) :
    (∀ proof publicInputs, verifyBytes P proof publicInputs = true ↔
      proof.length = 64 ∧ ∃ i r agg, ProofPublicInputs.decode publicInputs = some i ∧
        P.decompress (sliceAt 32 proof 0) = some r ∧
        aggregate P i.inputCommitments i.newCommitments = some agg ∧
        Scalar.fromBytesModOrder (sliceAt 32 proof 32) • generatorH P =
          r + challenge P r agg (blake2_256 P publicInputs) • agg) ∧
    (LinearIndependent Scalar ![P.basepoint, generatorH P] →
      ∀ inputs outputs agg, aggregate P inputs outputs = some agg →
      ∀ (r : V) (c c' s s' : Scalar), c ≠ c' →
        s • generatorH P = r + c • agg → s' • generatorH P = r + c' • agg →
      ∀ ins outs, OpenedBy P inputs ins → OpenedBy P outputs outs →
        valueSum ins ≡ valueSum outs [ZMOD groupOrder] ∧
        ((∀ o ∈ ins ++ outs, 0 ≤ o.value ∧ o.value < 2 ^ 64) → inputs.length < 2 ^ 180 →
          outputs.length < 2 ^ 180 → valueSum ins = valueSum outs)) ∧
    (∀ inputs outputs ins outs, OpenedBy P inputs ins → OpenedBy P outputs outs →
      valueSum ins ≡ valueSum outs [ZMOD groupOrder] → ∀ k : Scalar,
        (∃ agg, aggregate P inputs outputs = some agg ∧
          ∀ c : Scalar, ∃ s : Scalar, s • generatorH P = k • generatorH P + c • agg) ∧
        ∀ publicInputs i rBytes, ProofPublicInputs.decode publicInputs = some i →
          i.inputCommitments = inputs → i.newCommitments = outputs →
          P.decompress rBytes = some (k • generatorH P) →
          verifyBytes P (balanceProof P k rBytes ins outs publicInputs) publicInputs = true) := by
  refine ⟨fun _ _ => verifyBytes_eq_true, ?_, ?_⟩
  · intro hind inputs outputs agg hagg r c c' s s' hc h h' ins outs hins houts
    have hacc : Accepts (multipleOfH P) agg r c s := h
    have hacc' : Accepts (multipleOfH P) agg r c' s' := h'
    have hmod := valueSum_modEq hind hins houts hagg (map_extract hc hacc hacc').symm
    refine ⟨hmod, fun hval hlen hlen' => ?_⟩
    rw [List.forall_mem_append] at hval
    exact valueSum_eq hval.1 hval.2 (hins.length_eq ▸ hlen) (houts.length_eq ▸ hlen') hmod
  · intro inputs outputs ins outs hins houts hsum k
    refine ⟨⟨_, (exists_response hins houts hsum k 0).1, fun c => ?_⟩, ?_⟩
    · exact ⟨_, (exists_response hins houts hsum k c).2⟩
    · intro publicInputs i rBytes hdec hi ho hr
      exact verifyBytes_balanceProof hins houts hsum hdec hi ho hr

section Example

/-- A transfer of five units to two notes of two and three. -/
def transferBytes : List UInt8 :=
  List.replicate 64 0 ++ 4 :: ((encodePoint 0 5 7).toList ++ [4, 0, 0, 0, 0] ++ [4, 0] ++
    4 :: (List.replicate 32 1 ++ 8 :: ((encodePoint 0 2 3).toList ++ ((encodePoint 0 3 1).toList ++
      List.replicate 16 9))))

def transferInputs : List (U8Array 32) := [encodePoint 0 5 7]

def transferOutputs : List (U8Array 32) := [encodePoint 0 2 3, encodePoint 0 3 1]

theorem transferBytes_decode : (ProofPublicInputs.decode transferBytes).map (fun i =>
    (i.inputCommitments, i.newCommitments)) = some (transferInputs, transferOutputs) := by
  decide +kernel

theorem vector_point {v r : ℕ} (hv : v < 256 ^ 10) (hr : r < 256 ^ 12) :
    vectorPrimitives.decompress (encodePoint 0 v r) =
      some (Opening.point vectorPrimitives ⟨v, r⟩) := by
  rw [vector_decompress, decodePoint_encodePoint (by norm_num) hv hr]
  simp [Opening.point]

theorem transfer_opened :
    OpenedBy vectorPrimitives transferInputs [⟨5, 7⟩] ∧
      OpenedBy vectorPrimitives transferOutputs [⟨2, 3⟩, ⟨3, 1⟩] := by
  refine ⟨.cons (vector_point ?_ ?_) .nil,
    .cons (vector_point ?_ ?_) (.cons (vector_point ?_ ?_) .nil)⟩ <;> norm_num

/-- The transfer has an accepted proof, and the values of its notes add up. -/
theorem transfer_conserves_value :
    (∃ proof, verifyBytes vectorPrimitives proof transferBytes = true) ∧
      ∀ ins outs, OpenedBy vectorPrimitives transferInputs ins →
        OpenedBy vectorPrimitives transferOutputs outs →
        (∀ o ∈ ins ++ outs, 0 ≤ o.value ∧ o.value < 2 ^ 64) → valueSum ins = valueSum outs := by
  obtain ⟨-, hsound, hcomplete⟩ := balance_conserves_value vectorPrimitives
  obtain ⟨hins, houts⟩ := transfer_opened
  obtain ⟨⟨agg, hagg, hresponse⟩, haccept⟩ :=
    hcomplete transferInputs transferOutputs _ _ hins houts rfl 9
  obtain ⟨i, hdec, hi⟩ := Option.map_eq_some_iff.1 transferBytes_decode
  refine ⟨⟨_, haccept transferBytes i (encodePoint 0 0 9) hdec (congrArg Prod.fst hi)
    (congrArg Prod.snd hi) ?_⟩, ?_⟩
  · rw [vector_decompress, decodePoint_encodePoint (by norm_num) (by norm_num) (by norm_num)]
    simp
  · intro ins outs hins' houts' hval
    obtain ⟨s, hs⟩ := hresponse 0
    obtain ⟨s', hs'⟩ := hresponse 1
    exact (hsound vector_independent_pair _ _ agg hagg _ 0 1 s s' zero_ne_one hs hs' ins outs
      hins' houts').2 hval (by decide) (by decide)

end Example

end NullaRelay.ScanProof.Verifier
