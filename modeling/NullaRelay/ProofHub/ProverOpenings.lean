import NullaRelay.ProofHub.CircuitLedger
import NullaRelay.ProofHub.MerklePaths
import NullaRelay.ProofHub.SpendComplete

/-!
# What the provers' traces open

The cells of the traces that the provers fill open what the provers know: the note of a
deposit, and of a spend the note, its place, its siblings and the change. So there is an
extractor that returns the note itself for the proof of an honest prover. A spend of a
leaf of the tree hashes no other pairs on its path than the tree does.
-/

namespace NullaRelay.ProofHub

open NullaRelay.Frame V2 Transition Merkle Air

attribute [local instance] neZeroSpendRows neZeroSpendColumns neZeroDepositRows
  neZeroDepositColumns

variable {blake3 : List UInt8 → U8Array 32} {P : Verifier.Primitives}

/-- The note of given bytes. -/
def noteOfBytes (v : UInt64) (b pkd : U8Array 32) : Note where
  value := v
  blinding := unpack b
  pkd := unpack pkd

theorem DepositAir.noteOf_buildDepositTrace (v : UInt64) (b pkd : U8Array 32) :
    noteOf v (buildDepositTrace blake3 v b pkd) = noteOfBytes v b pkd := by
  obtain ⟨cols, hcols, heq⟩ := @buildDepositTrace_eq blake3 v b pkd
  have hrow (c : Fin 6) :
      (Trace.ofRows 256 fun r (c : Fin 6) => cols r c).row 0 c = cols 0 c := by
    rw [Trace.row_ofRows _ (by decide)]
  have hinit (j : Fin 4) := congrFun hcols.initial j
  have hkey := hcols.key 0 (by decide)
  have hblinding : (cols 0 2, cols 0 3) = unpack b := Prod.ext (hinit 2) (hinit 3)
  have hdigest : (cols 0 4, cols 0 5) = unpack pkd := Prod.ext hkey.1 hkey.2
  rw [noteOf, heq, hrow, hrow, hrow, hrow]
  exact congrArg₂ (Note.mk v) hblinding hdigest

namespace SpendAir

variable {w : SpendWitness} {priceOrAmount mode : UInt64}

/-- What the prover of a spend knows. -/
def SpendWitness.opening (w : SpendWitness) : Opening where
  note := noteOfBytes w.v w.b w.pkd
  index := w.index.toNat % 2 ^ 20
  siblings := w.siblings.map unpack
  change := noteOfBytes w.cv w.cb w.cpkd

/-- The trace of the prover opens its witness. -/
theorem openingOf_buildSpendTrace (h : Balanced w priceOrAmount mode) :
    openingOf (provePublicInputs blake3 w priceOrAmount mode) (buildSpendTrace blake3 w) =
      w.opening := by
  have hkeys : SharesKeys (provePublicInputs blake3 w priceOrAmount mode) w := h.sharesKeys
  obtain ⟨cols, hfilled, hrow⟩ := filled_buildSpendTrace hkeys
  obtain ⟨hv, hcv⟩ := hfilled.values_row hrow
  have hindex : ofBits (bitOf (buildSpendTrace blake3 w)) 20 = w.index.toNat % 2 ^ 20 :=
    ofBits_eq fun d hd => hfilled.bitOf_eq hrow hd
  have hblinding : ((buildSpendTrace blake3 w).row 5505 9,
      (buildSpendTrace blake3 w).row 5505 10) = unpack w.cb := by
    rw [hrow 5505 (by decide)]
    exact hfilled.siblings 5505 (by decide)
  have hsiblings : (⟨(List.range 20).map (siblingOf (buildSpendTrace blake3 w)), by simp⟩ :
      List.Vector Pair 20) = w.siblings.map unpack :=
    Subtype.ext ((hfilled.siblingOf_eq hrow).trans (List.Vector.toList_map _ _).symm)
  rw [openingOf, SpendWitness.opening, noteOfBytes, noteOfBytes, hv, hcv, toU64_ofU64, toU64_ofU64,
    hfilled.blindingOf_eq hrow, hindex, hblinding, hsiblings, hkeys.1, hkeys.2]

end SpendAir

namespace StarkExtractor

variable (W : StarkExtractor P)

open Classical in
/-- The extractor that hands out a given trace for a deposit. -/
noncomputable def withDeposit {pi : DepositAir.DepositPI} {t : Trace BaseElement 256 6}
    (h : (DepositAir.depositV2Air P.blake3 pi).Satisfies t) : StarkExtractor P :=
  { W with
    depositTrace := fun proof => Function.update (W.depositTrace proof) pi t
    deposit_satisfies := fun proof pi' hproof => by
      by_cases hpi : pi' = pi
      · rw [hpi, Function.update_self]
        exact h
      · rw [Function.update_of_ne hpi]
        exact W.deposit_satisfies proof pi' hproof }

open Classical in
/-- The extractor that hands out a given trace for a spend. -/
noncomputable def withSpend {pi : SpendAir.SpendPI} {t : Trace BaseElement 8192 14}
    (h : (SpendAir.spendAir P.blake3 pi).Satisfies t) : StarkExtractor P :=
  { W with
    spendTrace := fun proof => Function.update (W.spendTrace proof) pi t
    spend_satisfies := fun proof pi' hproof => by
      by_cases hpi : pi' = pi
      · rw [hpi, Function.update_self]
        exact h
      · rw [Function.update_of_ne hpi]
        exact W.spend_satisfies proof pi' hproof }

variable {W}

/-- For the statement of an honest deposit it returns the note. -/
theorem withDeposit_deposit {v : UInt64} {b pkd leaf : U8Array 32} (proof : List UInt8)
    (h : (DepositAir.depositV2Air P.blake3 ⟨v, leaf⟩).Satisfies
      (DepositAir.buildDepositTrace P.blake3 v b pkd)) :
    (W.withDeposit h).extractor.deposit proof v leaf = noteOfBytes v b pkd := by
  simp only [extractor, withDeposit, Function.update_self]
  exact DepositAir.noteOf_buildDepositTrace v b pkd

theorem withSpend_deposit {pi : SpendAir.SpendPI} {t : Trace BaseElement 8192 14}
    (h : (SpendAir.spendAir P.blake3 pi).Satisfies t) :
    (W.withSpend h).extractor.deposit = W.extractor.deposit := rfl

/-- For the statement of an honest spend it returns the witness. -/
theorem withSpend_spend {w : SpendAir.SpendWitness} {priceOrAmount mode : UInt64}
    (h : SpendAir.Balanced w priceOrAmount mode) {st : SpendStatement}
    (hst : st.publicInputs = SpendAir.provePublicInputs P.blake3 w priceOrAmount mode) :
    (W.withSpend (@SpendAir.Balanced.satisfies P.blake3 _ _ _ h)).extractor.spend st =
      w.opening := by
  simp only [extractor, withSpend, hst, Function.update_self]
  exact SpendAir.openingOf_buildSpendTrace h

end StarkExtractor

section Tree

variable {leaves : List (U8Array 32)}

/-- The witness of a spend of the note at a place of the tree. -/
def treeWitness (blake3 : List UInt8 → U8Array 32) (leaves : List (U8Array 32)) (i : ℕ)
    (v : UInt64) (b pkd : U8Array 32) (cv : UInt64) (cb cpkd : U8Array 32) :
    SpendAir.SpendWitness where
  v
  b
  pkd
  index := UInt32.ofNat i
  siblings := referenceSiblings (merkleHash2 (poseidonHashes blake3)) leaves (UInt32.ofNat i).toNat
  cv
  cb
  cpkd

theorem toNat_index {leaf : U8Array 32} {i : ℕ} (hleaf : leaves[i]? = some leaf)
    (hroom : leaves.length < 2 ^ merkleDepth) : (UInt32.ofNat i).toNat = i := by
  obtain ⟨hi, -⟩ := List.getElem?_eq_some_iff.1 hleaf
  exact UInt32.toNat_ofNat_of_lt' (hi.trans (hroom.trans (by norm_num [merkleDepth])))

/-- The path from a leaf of a tree with room leads to the root that the pallet stores. -/
theorem merklePathRoot_of_leaf {H : Hashes} {leaf : U8Array 32} {i : ℕ}
    (hleaf : leaves[i]? = some leaf) (hroom : leaves.length < 2 ^ merkleDepth) :
    merklePathRoot H leaf (UInt32.ofNat i).toNat
      (referenceSiblings (merkleHash2 H) leaves (UInt32.ofNat i).toNat) =
        treeRoot (merkleHash2 H) leaves := by
  have hindex := toNat_index hleaf hroom
  obtain ⟨hi, rfl⟩ := List.getElem?_eq_some_iff.1 hleaf
  have hpath := of_decide_eq_true (@verifyMerklePath_referenceSiblings H leaves (UInt32.ofNat i)
    (by rw [hindex]; exact hi.trans hroom))
  have hne : leaves ≠ [] := List.ne_nil_of_length_pos (Nat.zero_lt_of_lt hi)
  rw [referenceRoot_eq, hindex] at hpath
  rw [treeRoot, if_neg hne, if_pos hroom, hindex, ← hpath, leafAt, List.getD_eq_getElem _ _ hi]

/-- The public inputs of a balanced spend of a note of the tree. -/
theorem provePublicInputs_treeWitness {i : ℕ} {v cv priceOrAmount mode : UInt64}
    {b pkd cb cpkd : U8Array 32}
    (hleaf : leaves[i]? = some (noteHash (poseidonHashes blake3) v b pkd))
    (hroom : leaves.length < 2 ^ merkleDepth)
    (hbal : SpendAir.Balanced (treeWitness blake3 leaves i v b pkd cv cb cpkd) priceOrAmount
      mode) :
    SpendAir.provePublicInputs blake3 (treeWitness blake3 leaves i v b pkd cv cb cpkd)
        priceOrAmount mode =
      { root := treeRoot (merkleHash2 (poseidonHashes blake3)) leaves
        nullifier := nullifierHash (poseidonHashes blake3) b
        pkd
        priceOrAmount
        changeLeaf := noteHash (poseidonHashes blake3) cv cb cpkd
        changePkd := cpkd
        mode } := by
  rw [← merklePathRoot_of_leaf hleaf hroom]
  rcases hbal with ⟨rfl, -⟩ | ⟨rfl, -, hcv, hcb, hcpkd⟩
  · rfl
  · obtain rfl : cv = 0 := hcv
    obtain rfl : cb = U8Array.zero 32 := hcb
    obtain rfl : cpkd = U8Array.zero 32 := hcpkd
    rfl

/-- On the way from a leaf of the tree only pairs of the tree are hashed. -/
theorem pathPairs_treeWitness {i : ℕ} {v cv : UInt64} {b pkd cb cpkd : U8Array 32}
    (hleaf : leaves[i]? = some (noteHash (poseidonHashes blake3) v b pkd))
    (hroom : leaves.length < 2 ^ merkleDepth) {p : Pair × Pair}
    (hp : p ∈ pathPairs (poseidonHashes blake3).merkle
      (treeWitness blake3 leaves i v b pkd cv cb cpkd).opening.siblings.toList
      (treeWitness blake3 leaves i v b pkd cv cb cpkd).opening.index
      ((treeWitness blake3 leaves i v b pkd cv cb cpkd).opening.note.hash
        (poseidonHashes blake3))) :
    p ∈ treePairs (poseidonHashes blake3) leaves := by
  have hindex := toNat_index hleaf hroom
  obtain ⟨hi, hget⟩ := List.getElem?_eq_some_iff.1 hleaf
  have hmod : (treeWitness blake3 leaves i v b pkd cv cb cpkd).opening.index = i := by
    show (UInt32.ofNat i).toNat % 2 ^ 20 = i
    rw [hindex]
    exact Nat.mod_eq_of_lt (hi.trans hroom)
  have hnote : (treeWitness blake3 leaves i v b pkd cv cb cpkd).opening.note.hash
      (poseidonHashes blake3) = unpack (leafAt leaves i) := by
    rw [leafAt, List.getD_eq_getElem _ _ hi, hget, unpack_noteHash]
    rfl
  have hsiblings : (treeWitness blake3 leaves i v b pkd cv cb cpkd).opening.siblings.toList =
      siblings (poseidonHashes blake3).merkle (fun j => unpack (leafAt leaves j)) merkleDepth
        i := by
    have hlist : (treeWitness blake3 leaves i v b pkd cv cb cpkd).opening.siblings =
        (referenceSiblings (merkleHash2 (poseidonHashes blake3)) leaves
          (UInt32.ofNat i).toNat).map unpack := rfl
    rw [hlist, List.Vector.toList_map, hindex, toList_referenceSiblings, siblings, siblings,
      List.map_map]
    exact List.map_congr_left fun d _ => map_node (unpack_merkleHash2 _) _ _ _
  rw [hmod, hnote, hsiblings, pathPairs_siblings] at hp
  obtain ⟨d, hd, rfl⟩ := List.mem_map.1 hp
  exact ⟨leaves.length, d, _, List.mem_range.1 hd, by rw [List.take_length]⟩

end Tree

end NullaRelay.ProofHub
