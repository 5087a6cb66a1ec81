import NullaRelay.Foundations.Chunks
import NullaRelay.Foundations.Merkle
import NullaRelay.Frame.NoteTree

/-!
# The roots of the note tree

The level-by-level loop over the stored leaves computes the root of the tree over
the leaves filled up with zeros. Where the hash is never zero and does not collide,
different lists of leaves have different roots, whatever their lengths.
-/

namespace NullaRelay.Frame.NoteTree

open Merkle Chunks

variable {blake2_256 : List UInt8 → U8Array 32} {leaves leaves' : List (U8Array 32)}

/-- One level up, for a level given by its positions. -/
theorem hashPairs_range (f : ℕ → U8Array 32) (n : ℕ) :
    hashPairs blake2_256 ((List.range (2 * n)).map f) =
      (List.range n).map (node (hash2 blake2_256) f 1) := by
  induction n generalizing f with
  | zero => rfl
  | succ n ih =>
      have htwo : 2 * (n + 1) = 2 * n + 1 + 1 := by omega
      rw [htwo, List.range_succ_eq_map, List.range_succ_eq_map, List.range_succ_eq_map]
      simp only [List.map_cons, List.map_map, hashPairs]
      congr 1
      exact ih fun i => f (i + 1 + 1)

theorem hashLevels_range {fuel d : ℕ} (hd : d ≤ fuel) (f : ℕ → U8Array 32) :
    hashLevels blake2_256 fuel ((List.range (2 ^ d)).map f) = [node (hash2 blake2_256) f d 0] := by
  induction d generalizing fuel f with
  | zero =>
      cases fuel with
      | zero => rfl
      | succ fuel => rfl
  | succ d ih =>
      obtain ⟨fuel, rfl⟩ := Nat.exists_eq_succ_of_ne_zero (n := fuel) (by omega)
      have hlong : 1 < ((List.range (2 ^ (d + 1))).map f).length := by
        rw [List.length_map, List.length_range]
        exact Nat.one_lt_two_pow (Nat.succ_ne_zero d)
      rw [hashLevels, if_pos hlong, pow_succ', hashPairs_range, ih (Nat.le_of_succ_le_succ hd),
        node_node_one]

/-- The leaves filled up with zeros, by position. -/
theorem append_zeros_eq {n : ℕ} (hn : leaves.length ≤ n) :
    leaves ++ List.replicate (n - leaves.length) (U8Array.zero 32) =
      (List.range n).map (padded (U8Array.zero 32) leaves) := by
  refine List.ext_getElem (by simp; omega) fun i hi _ => ?_
  rw [List.getElem_map, List.getElem_range, List.getElem_append]
  split_ifs with hlt
  · rw [padded_of_lt hlt]
  · rw [List.getElem_replicate, padded, List.getD_eq_getElem?_getD,
      List.getElem?_eq_none (not_lt.1 hlt), Option.getD_none]

theorem computeMerkleRoot_eq (leaves : List (U8Array 32)) :
    computeMerkleRoot blake2_256 leaves =
      paddedRoot (hash2 blake2_256) (U8Array.zero 32) leaves := by
  by_cases hne : leaves = []
  · subst hne
    simp [computeMerkleRoot, paddedRoot, height, node, padded]
  have hle := length_le_two_pow_height leaves
  have hempty : leaves.isEmpty = false := by simpa using hne
  have hpow : leaves.length.nextPowerOfTwo = 2 ^ height leaves := nextPowerOfTwo_eq _
  simp only [computeMerkleRoot, hempty, Bool.false_eq_true, if_false, hpow, append_zeros_eq hle,
    List.length_map, List.length_range]
  rw [hashLevels_range Nat.lt_two_pow_self.le]
  rfl

/-- The root of some leaves is not the zero root of none. -/
theorem computeMerkleRoot_ne_zero (hzero : ∀ bytes, blake2_256 bytes ≠ U8Array.zero 32)
    (cs : List (U8Array 32)) (hne : cs ≠ []) :
    computeMerkleRoot blake2_256 (cs.map (leafHash blake2_256)) ≠ U8Array.zero 32 := by
  have hmap : cs.map (leafHash blake2_256) ≠ [] := by simpa using hne
  rw [computeMerkleRoot_eq]
  refine paddedRoot_ne_zero (fun a b => hzero _) (fun x hx => ?_) hmap
  obtain ⟨c, -, rfl⟩ := List.mem_map.1 hx
  exact hzero _

/-- The pairs that are hashed for the root of the leaves. -/
def treePairs (blake2_256 : List UInt8 → U8Array 32) (leaves : List (U8Array 32)) :
    Set (U8Array 32 × U8Array 32) :=
  paddedPairs (hash2 blake2_256) (U8Array.zero 32) leaves

/-- The pairs that are hashed for the leaves of the commitments. -/
def leafPairs (cs : List (U8Array 32)) : Set (U8Array 32 × U8Array 32) :=
  {p | p.1 ∈ cs ∧ p.2 = U8Array.zero 32}

/-- The root determines the leaves of the commitments. -/
theorem leaves_eq_of_root_eq {S : Set (U8Array 32 × U8Array 32)} {cs cs' : List (U8Array 32)}
    (hzero : ∀ bytes, blake2_256 bytes ≠ U8Array.zero 32)
    (hinj : Set.InjOn (fun p => hash2 blake2_256 p.1 p.2) S)
    (hcs : leafPairs cs ⊆ S) (hcs' : leafPairs cs' ⊆ S)
    (htree : treePairs blake2_256 (cs.map (leafHash blake2_256)) ⊆ S)
    (htree' : treePairs blake2_256 (cs'.map (leafHash blake2_256)) ⊆ S)
    (heq : computeMerkleRoot blake2_256 (cs.map (leafHash blake2_256)) =
      computeMerkleRoot blake2_256 (cs'.map (leafHash blake2_256))) :
    cs.map (leafHash blake2_256) = cs'.map (leafHash blake2_256) := by
  by_cases hne : cs = []
  · subst hne
    by_cases hne' : cs' = []
    · rw [hne']
    · exact absurd heq.symm (computeMerkleRoot_ne_zero hzero cs' hne')
  by_cases hne' : cs' = []
  · subst hne'
    exact absurd heq (computeMerkleRoot_ne_zero hzero cs hne)
  have hleaf {l : List (U8Array 32)} (hl : leafPairs l ⊆ S) :
      ∀ x ∈ l.map (leafHash blake2_256),
        ∃ a, (a, U8Array.zero 32) ∈ S ∧ x = hash2 blake2_256 a (U8Array.zero 32) := by
    intro x hx
    obtain ⟨c, hc, rfl⟩ := List.mem_map.1 hx
    exact ⟨c, hl ⟨hc, rfl⟩, rfl⟩
  have hhash : ∀ a b, hash2 blake2_256 a b ≠ U8Array.zero 32 := fun a b => hzero _
  have hmap : cs.map (leafHash blake2_256) ≠ [] := by simpa using hne
  have hmap' : cs'.map (leafHash blake2_256) ≠ [] := by simpa using hne'
  rw [computeMerkleRoot_eq, computeMerkleRoot_eq] at heq
  rcases Nat.le_total (height (cs.map (leafHash blake2_256)))
    (height (cs'.map (leafHash blake2_256))) with hle | hle
  · exact eq_of_paddedRoot_eq hhash hinj (hleaf hcs) (hleaf hcs') htree htree' hmap hle heq
  · exact (eq_of_paddedRoot_eq hhash hinj (hleaf hcs') (hleaf hcs) htree' htree hmap' hle
      heq.symm).symm

end NullaRelay.Frame.NoteTree
