import Mathlib.Algebra.Group.Nat.Even
import Mathlib.Data.Nat.Bitwise
import NullaRelay.ProofHub.Ledger

/-!
# Paths of the reference tree

The siblings that are read off the levels of the reference computation are those of
the tree over the leaves, so every place of the tree of depth 20 has an accepted path.
Where the node hash does not collide, an accepted path starts from the leaf at its
index: from the same field elements, and from the same bytes if both are the packed
form of their elements.
-/

namespace NullaRelay.ProofHub.V2

open Merkle

section Reference

variable (hash2 : U8Array 32 → U8Array 32 → U8Array 32)

/-- The sibling at level `d` on the way from leaf `i`, read off the levels of the
reference computation: the empty subtree beyond the end of the level. -/
def referenceSibling (leaves : List (U8Array 32)) (i d : ℕ) : U8Array 32 :=
  (referenceLevels hash2 d 0 leaves).getD ((i / 2 ^ d) ^^^ 1) (zeroSubtrees hash2 d)

def referenceSiblings (leaves : List (U8Array 32)) (i : ℕ) : List.Vector (U8Array 32) 20 :=
  ⟨(List.range 20).map (referenceSibling hash2 leaves i), by simp⟩

variable {hash2} {leaves : List (U8Array 32)}

theorem xor_one_eq_siblingIndex (j : ℕ) : j ^^^ 1 = siblingIndex j := by
  rw [siblingIndex]
  split_ifs with heven
  · exact Nat.xor_one_of_even (Nat.even_iff.2 heven)
  · exact Nat.xor_one_of_odd (Nat.odd_iff.2 (Nat.mod_two_ne_zero.1 heven))

theorem referenceSibling_eq (i d : ℕ) :
    referenceSibling hash2 leaves i d =
      node hash2 (leafAt leaves) d (siblingIndex (i / 2 ^ d)) := by
  have hlevel := @getD_referenceLevels hash2 d 0 leaves (leafAt leaves) (fun _ => rfl)
    (siblingIndex (i / 2 ^ d))
  rw [Nat.zero_add] at hlevel
  rw [referenceSibling, xor_one_eq_siblingIndex]
  exact hlevel

theorem toList_referenceSiblings (i : ℕ) : (referenceSiblings hash2 leaves i).toList =
    siblings hash2 (leafAt leaves) merkleDepth i :=
  List.map_congr_left fun d _ => referenceSibling_eq i d

end Reference

variable {H : Hashes} {leaves : List (U8Array 32)} {i : UInt32} {S : Set (Pair × Pair)}

theorem verifyMerklePath_referenceSiblings (hi : i.toNat < 2 ^ merkleDepth) :
    verifyMerklePath H (leafAt leaves i.toNat) i
      (referenceSiblings (merkleHash2 H) leaves i.toNat) (referenceRoot (merkleHash2 H) leaves) =
        true := by
  rw [verifyMerklePath, decide_eq_true_iff, merklePathRoot, toList_referenceSiblings,
    pathRoot_siblings, referenceRoot_eq, Nat.div_eq_of_lt hi]

/-- An accepted path starts from the leaf at its index, as field elements. -/
theorem unpack_eq_of_verifyMerklePath (hi : i.toNat < 2 ^ merkleDepth)
    (hinj : Set.InjOn (fun p => H.merkle p.1 p.2) S)
    (htree : nodePairs H.merkle (fun j => unpack (leafAt leaves j)) merkleDepth ⊆ S)
    {x : U8Array 32} {siblings : List.Vector (U8Array 32) 20}
    (hpath : ∀ p ∈ pathPairs H.merkle (siblings.toList.map unpack) i.toNat (unpack x), p ∈ S)
    (h : verifyMerklePath H x i siblings (referenceRoot (merkleHash2 H) leaves) = true) :
    unpack x = unpack (leafAt leaves i.toNat) := by
  have hlen : (siblings.toList.map unpack).length = merkleDepth := by
    rw [List.length_map, List.Vector.toList_length]
    rfl
  rw [verifyMerklePath, decide_eq_true_iff, referenceRoot_eq] at h
  have hroot := congrArg unpack h
  rw [unpack_merklePathRoot, map_node (unpack_merkleHash2 H), ← hlen] at hroot
  refine eq_leaf_of_pathRoot (f := fun j => unpack (leafAt leaves j)) (by rwa [hlen])
    (fun p hp d j hd hj heq => hinj (hpath p hp) (htree ⟨d, j, ?_, ?_, rfl⟩) heq) hroot
  · rwa [hlen] at hd
  · rwa [hlen] at hj

/-- Every place of the tree has an accepted path, and an accepted path starts from the
leaf at its place: from its field elements, and from its bytes where both are packed. -/
theorem merkle_paths_complete_and_binding (H : Hashes) (leaves : List (U8Array 32)) (i : UInt32)
    (hi : i.toNat < 2 ^ merkleDepth) {S : Set (Pair × Pair)}
    (hinj : Set.InjOn (fun p => H.merkle p.1 p.2) S)
    (htree : nodePairs H.merkle (fun j => unpack (leafAt leaves j)) merkleDepth ⊆ S) :
    verifyMerklePath H (leafAt leaves i.toNat) i
        (referenceSiblings (merkleHash2 H) leaves i.toNat)
        (referenceRoot (merkleHash2 H) leaves) = true ∧
      ∀ (x : U8Array 32) (siblings : List.Vector (U8Array 32) 20),
        (∀ p ∈ pathPairs H.merkle (siblings.toList.map unpack) i.toNat (unpack x), p ∈ S) →
        verifyMerklePath H x i siblings (referenceRoot (merkleHash2 H) leaves) = true →
        unpack x = unpack (leafAt leaves i.toNat) ∧
          (packPair (unpack x) = x →
            packPair (unpack (leafAt leaves i.toNat)) = leafAt leaves i.toNat →
            x = leafAt leaves i.toNat) := by
  refine ⟨verifyMerklePath_referenceSiblings hi, fun x siblings hpath h => ?_⟩
  have hx := unpack_eq_of_verifyMerklePath hi hinj htree hpath h
  refine ⟨hx, fun hpacked hpacked' => ?_⟩
  rw [← hpacked, hx, hpacked']

section Example

/-- The tree over one marked leaf. -/
theorem mark_nodePairs (v : UInt64) :
    nodePairs markHashes.merkle (fun j => unpack (leafAt [markLeaf v] j)) merkleDepth ⊆
      {p | EdgePair p} := by
  rintro p ⟨d, j, hd, -, rfl⟩
  exact mark_treePairs v ⟨1, d, j, hd, rfl⟩

/-- The leaf itself on the left edge, under its own hash. -/
theorem marked_leaf_path :
    verifyMerklePath markHashes (leafAt [markLeaf 5] 0) 0
        (referenceSiblings (merkleHash2 markHashes) [markLeaf 5] 0)
        (referenceRoot (merkleHash2 markHashes) [markLeaf 5]) = true ∧
      ∀ (x : U8Array 32) (siblings : List.Vector (U8Array 32) 20),
        (∀ p ∈ pathPairs markHashes.merkle (siblings.toList.map unpack) 0 (unpack x),
          p ∈ {p | EdgePair p}) →
        verifyMerklePath markHashes x 0 siblings
          (referenceRoot (merkleHash2 markHashes) [markLeaf 5]) = true →
        unpack x = unpack (leafAt [markLeaf 5] 0) ∧
          (packPair (unpack x) = x →
            packPair (unpack (leafAt [markLeaf 5] 0)) = leafAt [markLeaf 5] 0 →
            x = leafAt [markLeaf 5] 0) :=
  merkle_paths_complete_and_binding markHashes [markLeaf 5] 0 (by decide)
    (mark_injectiveOn (n := markNote 5) (by decide)).merkle_inj (mark_nodePairs 5)

end Example

end NullaRelay.ProofHub.V2
