import NullaRelay.ProofHub.V2
import Mathlib.Data.List.GetD

/-!
# The incremental tree of the v2 lane

The tree of depth 20 that the pallet keeps as one pending left node per level
and a count, and the reference computation over the full list of leaves. They
give the same root as long as the tree is not full; the fold of a full frontier
reads no pending node, because the count has no bit below the depth, and gives
the root of the empty tree. The hash of two nodes is any function.
-/

namespace NullaRelay.ProofHub.V2

open Merkle

variable (hash2 : U8Array 32 → U8Array 32 → U8Array 32)

/-- `zero_subtrees()`. -/
def zeroSubtrees : ℕ → U8Array 32 := zeroSubtree hash2 (U8Array.zero 32)

/-- The incremental tree: the pending left node of each level and the number of
leaves. -/
structure Frontier where
  nodes : ℕ → U8Array 32
  leafCount : UInt32

/-- `Frontier::default()`. -/
def Frontier.empty : Frontier := { nodes := fun _ => U8Array.zero 32, leafCount := 0 }

/-- `Frontier::insert`: refused when the tree is full. -/
def Frontier.insert (t : Frontier) (leaf : U8Array 32) : Option Frontier :=
  if 2 ^ merkleDepth ≤ t.leafCount.toNat then none
  else some
    { nodes := insertNodes hash2 t.nodes merkleDepth 0 t.leafCount.toNat leaf
      leafCount := t.leafCount + 1 }

/-- `Frontier::root`: the fold of the pending nodes with the empty subtrees. -/
def Frontier.root (t : Frontier) : U8Array 32 :=
  foldNodes hash2 t.nodes (zeroSubtrees hash2) merkleDepth 0 t.leafCount.toNat
    (zeroSubtrees hash2 0)

/-- `v2_insert_leaf`: the tree after the leaf, and its root. -/
def v2InsertLeaf (t : Frontier) (leaf : U8Array 32) : Option (Frontier × U8Array 32) := do
  let t ← t.insert hash2 leaf
  pure (t, t.root hash2)

/-- The pairs of a level, an odd last node with the empty subtree. -/
def referencePairs (z : U8Array 32) : List (U8Array 32) → List (U8Array 32)
  | a :: b :: rest => hash2 a b :: referencePairs z rest
  | [a] => [hash2 a z]
  | [] => []

/-- The level above level `d`; above nothing is the empty subtree. -/
def referenceLevel (d : ℕ) (level : List (U8Array 32)) : List (U8Array 32) :=
  let next := referencePairs hash2 (zeroSubtrees hash2 d) level
  if next.isEmpty then [zeroSubtrees hash2 (d + 1)] else next

def referenceLevels : ℕ → ℕ → List (U8Array 32) → List (U8Array 32)
  | 0, _, level => level
  | k + 1, d, level => referenceLevels k (d + 1) (referenceLevel hash2 d level)

/-- `reference_root`: the full tree of depth 20 over the leaves. -/
def referenceRoot (leaves : List (U8Array 32)) : U8Array 32 :=
  (referenceLevels hash2 merkleDepth 0 leaves).headD (U8Array.zero 32)

/-- The leaves of a list, zero beyond its end. -/
def leafAt (leaves : List (U8Array 32)) (i : ℕ) : U8Array 32 := leaves.getD i (U8Array.zero 32)

/-- The leaves inserted one after another. -/
def Frontier.insertAll (leaves : List (U8Array 32)) : Option Frontier :=
  leaves.foldlM (fun t leaf => t.insert hash2 leaf) Frontier.empty

/-- The tree keeps the frontier of a list of leaves. -/
structure Frontier.Holds (t : Frontier) (leaves : List (U8Array 32)) : Prop where
  count : t.leafCount.toNat = leaves.length
  room : leaves.length ≤ 2 ^ merkleDepth
  nodes : IsFrontier hash2 merkleDepth t.nodes (leafAt leaves) leaves.length

variable {hash2} {t t' : Frontier} {leaves : List (U8Array 32)} {leaf : U8Array 32}

theorem leafAt_of_le {i : ℕ} (h : leaves.length ≤ i) : leafAt leaves i = U8Array.zero 32 :=
  List.getD_eq_default _ _ h

theorem leafAt_append {i : ℕ} (h : i < leaves.length) :
    leafAt (leaves ++ [leaf]) i = leafAt leaves i :=
  List.getD_append _ _ _ _ h

@[simp] theorem leafAt_length : leafAt (leaves ++ [leaf]) leaves.length = leaf := by
  simp [leafAt]

theorem Frontier.holds_empty : Frontier.empty.Holds hash2 [] where
  count := rfl
  room := Nat.zero_le _
  nodes d _ h := by simp at h

theorem Frontier.insert_eq_none (h : t.Holds hash2 leaves)
    (hfull : leaves.length = 2 ^ merkleDepth) : t.insert hash2 leaf = none :=
  if_pos (by rw [h.count, hfull])

/-- An insertion into a tree that is not full succeeds and keeps the frontier. -/
theorem Frontier.Holds.insert (h : t.Holds hash2 leaves)
    (hroom : leaves.length < 2 ^ merkleDepth) :
    ∃ t', t.insert hash2 leaf = some t' ∧ t'.Holds hash2 (leaves ++ [leaf]) := by
  have hcount : (t.leafCount + 1).toNat = leaves.length + 1 := by
    have hdepth : 2 ^ merkleDepth = 1048576 := rfl
    rw [UInt32.toNat_add, h.count, Nat.mod_eq_of_lt]
    · rfl
    · rw [UInt32.toNat_one]
      omega
  refine ⟨_, if_neg (by rw [h.count]; omega), ?_, ?_, ?_⟩
  · rw [hcount, List.length_append, List.length_singleton]
  · simpa using hroom
  · have hnodes := h.nodes.insert (g := leafAt (leaves ++ [leaf]))
      fun i hi => (leafAt_append hi).symm
    rw [leafAt_length] at hnodes
    simpa [h.count] using hnodes

theorem Frontier.Holds.root_eq (h : t.Holds hash2 leaves)
    (hroom : leaves.length < 2 ^ merkleDepth) :
    t.root hash2 = node hash2 (leafAt leaves) merkleDepth 0 := by
  rw [Frontier.root, h.count]
  exact h.nodes.root_eq (fun i hi => leafAt_of_le hi) hroom

/-- The root of a full tree is that of the empty tree. -/
theorem Frontier.Holds.root_full (h : t.Holds hash2 leaves)
    (hfull : leaves.length = 2 ^ merkleDepth) :
    t.root hash2 = zeroSubtrees hash2 merkleDepth := by
  have hnodes := h.nodes
  rw [hfull] at hnodes
  rw [Frontier.root, h.count, hfull]
  exact hnodes.root_full fun i hi => leafAt_of_le (hfull.trans_le hi)

theorem Frontier.insertAll_append :
    Frontier.insertAll hash2 (leaves ++ [leaf]) =
      (Frontier.insertAll hash2 leaves).bind fun t => t.insert hash2 leaf := by
  simp [Frontier.insertAll, List.foldlM_append]

/-- Up to the capacity every insertion succeeds. -/
theorem Frontier.insertAll_holds (h : leaves.length ≤ 2 ^ merkleDepth) :
    ∃ t, Frontier.insertAll hash2 leaves = some t ∧ t.Holds hash2 leaves := by
  induction leaves using List.reverseRecOn with
  | nil => exact ⟨_, rfl, Frontier.holds_empty⟩
  | append_singleton leaves leaf ih =>
      rw [List.length_append, List.length_singleton] at h
      obtain ⟨t, ht, hholds⟩ := ih (by omega)
      obtain ⟨t', ht', hholds'⟩ : ∃ t', t.insert hash2 leaf = some t' ∧
          t'.Holds hash2 (leaves ++ [leaf]) := hholds.insert (by omega)
      exact ⟨t', by rw [Frontier.insertAll_append, ht, Option.bind_some, ht'], hholds'⟩

theorem getD_referencePairs (z : U8Array 32) (level : List (U8Array 32)) (j : ℕ) :
    (referencePairs hash2 z level).getD j (hash2 z z) =
      hash2 (level.getD (2 * j) z) (level.getD (2 * j + 1) z) := by
  induction level using referencePairs.induct generalizing j with
  | case1 a b rest ih =>
      cases j with
      | zero => rfl
      | succ j => simpa [referencePairs, Nat.mul_succ] using ih j
  | case2 a =>
      cases j with
      | zero => rfl
      | succ j => simp [referencePairs, Nat.mul_succ]
  | case3 => simp [referencePairs]

/-- Position `j` of a level is the node of the tree, the empty subtree beyond the
end of the list. -/
theorem getD_referenceLevel {d : ℕ} {level : List (U8Array 32)} {f : ℕ → U8Array 32}
    (h : ∀ j, level.getD j (zeroSubtrees hash2 d) = node hash2 f d j) (j : ℕ) :
    (referenceLevel hash2 d level).getD j (zeroSubtrees hash2 (d + 1)) =
      node hash2 f (d + 1) j := by
  have hpairs : (referencePairs hash2 (zeroSubtrees hash2 d) level).getD j _ = hash2 _ _ :=
    getD_referencePairs _ level j
  rw [h, h] at hpairs
  unfold referenceLevel
  cases hnext : referencePairs hash2 (zeroSubtrees hash2 d) level with
  | nil =>
      rw [hnext] at hpairs
      cases j <;> exact hpairs
  | cons a rest =>
      rw [hnext] at hpairs
      exact hpairs

theorem getD_referenceLevels {k d : ℕ} {level : List (U8Array 32)} {f : ℕ → U8Array 32}
    (h : ∀ j, level.getD j (zeroSubtrees hash2 d) = node hash2 f d j) (j : ℕ) :
    (referenceLevels hash2 k d level).getD j (zeroSubtrees hash2 (d + k)) =
      node hash2 f (d + k) j := by
  induction k generalizing d level with
  | zero => exact h j
  | succ k ih =>
      have hnext := ih (getD_referenceLevel h)
      rwa [add_right_comm, add_assoc] at hnext

theorem referenceLevels_ne_nil (k d : ℕ) (level : List (U8Array 32)) :
    referenceLevels hash2 (k + 1) d level ≠ [] := by
  induction k generalizing d level with
  | zero =>
      unfold referenceLevels referenceLevels referenceLevel
      cases hnext : referencePairs hash2 (zeroSubtrees hash2 d) level <;> simp
  | succ k ih => exact ih (d + 1) _

/-- The reference root is the root of the tree over the leaves. -/
theorem referenceRoot_eq :
    referenceRoot hash2 leaves = node hash2 (leafAt leaves) merkleDepth 0 := by
  have hget : (referenceLevels hash2 merkleDepth 0 leaves).getD 0 (zeroSubtrees hash2 _) = _ :=
    getD_referenceLevels (f := leafAt leaves) (fun _ => rfl) 0
  rw [Nat.zero_add] at hget
  rw [← hget, referenceRoot]
  cases hlevel : referenceLevels hash2 merkleDepth 0 leaves with
  | nil => exact absurd hlevel (referenceLevels_ne_nil 19 0 leaves)
  | cons a rest => rfl

variable (hash2 leaves) in
/-- The promise of the incremental tree: after every insertion its root is the
reference root of the leaves so far, the empty tree has the root of the empty
subtree, and a full tree refuses the next leaf. -/
structure AgreesWithReference : Prop where
  root : ∀ k, k ≤ leaves.length → ∃ t, Frontier.insertAll hash2 (leaves.take k) = some t ∧
    t.root hash2 = referenceRoot hash2 (leaves.take k)
  empty : Frontier.empty.root hash2 = zeroSubtrees hash2 merkleDepth
  full : leaves.length = 2 ^ merkleDepth → ∃ t, Frontier.insertAll hash2 leaves = some t ∧
    ∀ leaf, t.insert hash2 leaf = none ∧ v2InsertLeaf hash2 t leaf = none

theorem referenceRoot_of_zero (h : ∀ leaf ∈ leaves, leaf = U8Array.zero 32) :
    referenceRoot hash2 leaves = zeroSubtrees hash2 merkleDepth := by
  rw [referenceRoot_eq]
  refine node_of_zero fun i _ => ?_
  rcases Nat.lt_or_ge i leaves.length with hi | hi
  · rw [leafAt, List.getD_eq_getElem _ _ hi]
    exact h _ (List.getElem_mem hi)
  · exact leafAt_of_le hi

theorem agreesWithReference_of (h : leaves.length ≤ 2 ^ merkleDepth)
    (hroot : leaves.length < 2 ^ merkleDepth ∨ ∀ leaf ∈ leaves, leaf = U8Array.zero 32) :
    AgreesWithReference hash2 leaves where
  root k hk := by
    have hlen : (leaves.take k).length = k := List.length_take_of_le hk
    obtain ⟨t, ht, hholds⟩ := @Frontier.insertAll_holds hash2 (leaves.take k) (by omega)
    refine ⟨t, ht, ?_⟩
    rcases Nat.lt_or_ge k (2 ^ merkleDepth) with hlt | hge
    · rw [hholds.root_eq (by omega), referenceRoot_eq]
    · have hzero : ∀ leaf ∈ leaves.take k, leaf = U8Array.zero 32 := fun leaf hleaf =>
        (hroot.resolve_left (by omega)) leaf (List.mem_of_mem_take hleaf)
      rw [hholds.root_full (by omega), referenceRoot_of_zero hzero]
  empty := by
    have hempty : referenceRoot hash2 [] = zeroSubtrees hash2 merkleDepth :=
      referenceRoot_of_zero fun leaf hleaf => absurd hleaf List.not_mem_nil
    rw [Frontier.holds_empty.root_eq (by decide), ← hempty, referenceRoot_eq]
  full hfull := by
    obtain ⟨t, ht, hholds⟩ := @Frontier.insertAll_holds hash2 leaves h
    have hnone (leaf : U8Array 32) : t.insert hash2 leaf = none :=
      Frontier.insert_eq_none hholds hfull
    exact ⟨t, ht, fun leaf => ⟨hnone leaf, by rw [v2InsertLeaf, hnone]; rfl⟩⟩

/-- A hash that tells whether anything below is nonzero. -/
def markHash (l r : U8Array 32) : U8Array 32 :=
  if l = U8Array.zero 32 ∧ r = U8Array.zero 32 then U8Array.zero 32 else U8Array.ofNat 32 1

theorem markHash_eq_zero {l r : U8Array 32} :
    markHash l r = U8Array.zero 32 ↔ l = U8Array.zero 32 ∧ r = U8Array.zero 32 := by
  have hone : U8Array.ofNat 32 1 ≠ U8Array.zero 32 := by decide
  by_cases h : l = U8Array.zero 32 ∧ r = U8Array.zero 32 <;> simp [markHash, h, hone]

theorem leaves_zero_of_node {f : ℕ → U8Array 32} {d j : ℕ}
    (h : node markHash f d j = U8Array.zero 32) (i : ℕ) (hi : i / 2 ^ d = j) :
    f i = U8Array.zero 32 := by
  induction d generalizing j with
  | zero => simpa [node, ← hi] using h
  | succ d ih =>
      obtain ⟨hleft, hright⟩ := markHash_eq_zero.1 h
      rw [div_pow_succ] at hi
      rcases Nat.mod_two_eq_zero_or_one (i / 2 ^ d) with heven | hodd
      · exact ih hleft (by omega)
      · exact ih hright (by omega)

theorem zeroSubtrees_markHash (d : ℕ) : zeroSubtrees markHash d = U8Array.zero 32 := by
  induction d with
  | zero => rfl
  | succ d ih => exact markHash_eq_zero.2 ⟨ih, ih⟩

/-- A full tree with a nonzero leaf has lost its root. -/
theorem zero_of_agreesWithReference (h : AgreesWithReference markHash leaves)
    (hfull : leaves.length = 2 ^ merkleDepth) : ∀ leaf ∈ leaves, leaf = U8Array.zero 32 := by
  obtain ⟨t, ht, hroot⟩ := h.root leaves.length le_rfl
  obtain ⟨t', ht', hholds⟩ := @Frontier.insertAll_holds markHash leaves hfull.le
  rw [List.take_length] at ht hroot
  obtain rfl : t = t' := Option.some.inj (ht.symm.trans ht')
  rw [hholds.root_full hfull, zeroSubtrees_markHash, referenceRoot_eq] at hroot
  intro leaf hleaf
  obtain ⟨i, hi, rfl⟩ := List.mem_iff_getElem.1 hleaf
  have hzero := leaves_zero_of_node hroot.symm i (Nat.div_eq_of_lt (hfull ▸ hi))
  rwa [leafAt, List.getD_eq_getElem _ _ hi] at hzero

/-- Over all hash functions the incremental tree keeps its promise exactly when
the leaves do not fill it, or are all zero. -/
theorem agreesWithReference_iff_not_full (leaves : List (U8Array 32))
    (h : leaves.length ≤ 2 ^ merkleDepth) :
    (∀ hash2, AgreesWithReference hash2 leaves) ↔
      leaves.length < 2 ^ merkleDepth ∨ ∀ leaf ∈ leaves, leaf = U8Array.zero 32 := by
  constructor
  · intro hagrees
    rcases h.lt_or_eq with hlt | hfull
    · exact .inl hlt
    · exact .inr (zero_of_agreesWithReference (hagrees markHash) hfull)
  · exact fun hroot hash2 => agreesWithReference_of h hroot

/-- Five leaves, the numbers from one on. -/
def fiveLeaves : List (U8Array 32) := (List.range 5).map fun i => U8Array.ofNat 32 (i + 1)

theorem fiveLeaves_agreesWithReference :
    (∀ hash2, AgreesWithReference hash2 fiveLeaves) ↔
      fiveLeaves.length < 2 ^ merkleDepth ∨ ∀ leaf ∈ fiveLeaves, leaf = U8Array.zero 32 :=
  agreesWithReference_iff_not_full fiveLeaves (by decide)

/-- The tree filled with one nonzero leaf: the root after the last insertion is
not the reference root. -/
theorem full_tree_disagrees :
    ¬ ∀ (hash2 : U8Array 32 → U8Array 32 → U8Array 32) (leaves : List (U8Array 32)),
      leaves.length ≤ 2 ^ merkleDepth → AgreesWithReference hash2 leaves := by
  intro hclaim
  have hlen : (List.replicate (2 ^ merkleDepth) (U8Array.ofNat 32 1)).length = 2 ^ merkleDepth :=
    List.length_replicate
  have hzero := zero_of_agreesWithReference (hclaim markHash _ hlen.le) hlen (U8Array.ofNat 32 1)
    (List.mem_replicate.2 ⟨by decide, rfl⟩)
  exact absurd hzero (by decide)

end NullaRelay.ProofHub.V2
