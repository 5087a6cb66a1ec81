import NullaRelay.Foundations.Transition
import NullaRelay.ProofHub.Footprint

/-!
# The v2 tree of a run

The pallet's tree keeps the leaves that the accepted calls added, in their
order: its frontier holds them, its index knows each of them once, and every
root that the pallet accepts is the root of a prefix of them. Before the first
leaf the current root is zero, and a full tree has the root of the empty one.
-/

namespace NullaRelay.ProofHub

open NullaRelay.Frame V2 Transition Merkle

variable {hash2 : U8Array 32 → U8Array 32 → U8Array 32} {A L : Type} {T : Config A L}
  {s s' : State L} {leaves : List (U8Array 32)}

/-- The leaves that a history added to the tree. -/
def newLeaves (past : List (State L × Extrinsic A)) : List (U8Array 32) :=
  past.filterMap fun e => (e.2.2.footprint e.1).leaf

variable (hash2) in
/-- The root that the pallet stores after the leaves. -/
def treeRoot (leaves : List (U8Array 32)) : U8Array 32 :=
  if leaves = [] then U8Array.zero 32
  else if leaves.length < 2 ^ merkleDepth then node hash2 (leafAt leaves) merkleDepth 0
  else zeroSubtrees hash2 merkleDepth

variable (hash2 s leaves) in
/-- The state keeps the tree of the leaves. -/
structure KeepsTree : Prop where
  holds : s.frontierV2.Holds hash2 leaves
  indexed : ∀ leaf, s.leafIndexV2 leaf = none ↔ leaf ∉ leaves
  current : s.currentRootV2 = treeRoot hash2 leaves
  recent : ∀ r ∈ s.recentRootsV2.val, ∃ k, 0 < k ∧ k < leaves.length ∧
    r = treeRoot hash2 (leaves.take k)

theorem keepsTree_genesis (ledger : L) : KeepsTree hash2 (genesis ledger) [] where
  holds := Frontier.holds_empty
  indexed leaf := by simp [genesis]
  current := rfl
  recent r hr := by simp [genesis] at hr

theorem treeRoot_of_holds {t : Frontier} (h : t.Holds hash2 leaves) (hne : leaves ≠ []) :
    t.root hash2 = treeRoot hash2 leaves := by
  rw [treeRoot, if_neg hne]
  split_ifs with hroom
  · exact h.root_eq hroom
  · exact h.root_full (h.room.antisymm (Nat.not_lt.1 hroom))

/-- A leaf joins exactly when it is new and the tree has room. -/
theorem v2InsertLeaf_eq_some (h : s.frontierV2.Holds hash2 leaves) {leaf newRoot : U8Array 32}
    {t : Frontier} (hins : v2InsertLeaf hash2 s.frontierV2 leaf = some (t, newRoot)) :
    t.Holds hash2 (leaves ++ [leaf]) ∧ newRoot = treeRoot hash2 (leaves ++ [leaf]) := by
  rcases h.room.lt_or_eq with hroom | hfull
  · obtain ⟨t', ht', hholds⟩ : ∃ t', s.frontierV2.insert hash2 leaf = some t' ∧
        t'.Holds hash2 (leaves ++ [leaf]) := h.insert hroom
    rw [v2InsertLeaf, ht'] at hins
    cases hins
    exact ⟨hholds, treeRoot_of_holds hholds (by simp)⟩
  · rw [v2InsertLeaf, Frontier.insert_eq_none h hfull] at hins
    cases hins

theorem v2InsertLeaf_isSome {t : Frontier} (h : t.Holds hash2 leaves)
    (hroom : leaves.length < 2 ^ merkleDepth) (leaf : U8Array 32) :
    ∃ r, v2InsertLeaf hash2 t leaf = some r := by
  obtain ⟨t', ht', -⟩ : ∃ t', t.insert hash2 leaf = some t' ∧ t'.Holds hash2 (leaves ++ [leaf]) :=
    h.insert hroom
  exact ⟨_, by rw [v2InsertLeaf, ht']; rfl⟩

/-- The tree after one call. -/
theorem KeepsTree.step (hins : T.proofVerifier.v2InsertLeaf = v2InsertLeaf hash2)
    (h : KeepsTree hash2 s leaves) {f : Footprint} (heff : Effect T s s' f) :
    KeepsTree hash2 s' (leaves ++ f.leaf.toList) := by
  have htree := heff.tree
  cases hleaf : f.leaf with
  | none =>
      rw [hleaf] at htree
      obtain ⟨hfrontier, hcurrent, hrecent, hindex⟩ := htree
      rw [Option.toList_none, List.append_nil]
      constructor
      · rw [hfrontier]
        exact h.holds
      · rw [hindex]
        exact h.indexed
      · rw [hcurrent]
        exact h.current
      · rw [hrecent]
        exact h.recent
  | some leaf =>
      rw [hleaf] at htree
      obtain ⟨hnew, hroot, hrecent, hindex⟩ := htree
      rw [hins] at hroot
      obtain ⟨hholds, hcurrent⟩ := v2InsertLeaf_eq_some h.holds hroot
      constructor
      · exact hholds
      · intro l
        rw [hindex]
        by_cases hl : l = leaf
        · simp [hl]
        · simp [hl, h.indexed]
      · exact hcurrent
      · intro r hr
        have hcases : r ∈ s.recentRootsV2.val ∨ 0 < leaves.length ∧ r = s.currentRootV2 := by
          rw [hrecent] at hr
          split_ifs at hr with hpos
          · refine (NoteTree.mem_of_mem_pushRoot hr).imp_right fun hcur => ⟨?_, hcur⟩
            rw [← h.holds.count]
            exact UInt32.lt_iff_toNat_lt.1 hpos
          · exact .inl hr
        rcases hcases with hold | ⟨hpos, rfl⟩
        · obtain ⟨k, hk, hlt, rfl⟩ := h.recent r hold
          refine ⟨k, hk, by simp; omega, ?_⟩
          rw [List.take_append_of_le_length hlt.le]
        · refine ⟨leaves.length, hpos, by simp, ?_⟩
          rw [h.current]
          simp

theorem newLeaves_append (past : List (State L × Extrinsic A)) (e : State L × Extrinsic A) :
    newLeaves (past ++ [e]) = newLeaves past ++ (e.2.2.footprint e.1).leaf.toList := by
  cases hleaf : (e.2.2.footprint e.1).leaf <;> simp [newLeaves, hleaf]

/-- In every run from genesis the state keeps the tree of the leaves added. -/
theorem keepsTree_run (hins : T.proofVerifier.v2InsertLeaf = v2InsertLeaf hash2) (ledger : L)
    (xs : List (Extrinsic A)) :
    KeepsTree hash2 (run (apply T) (genesis ledger) xs)
      (newLeaves (history (apply T) (genesis ledger) xs)) := by
  have hrun := @history_invariant _ _ _ (apply T) (fun _ _ => True)
    (fun s past => KeepsTree hash2 s (newLeaves past))
    (fun s x s' past h _ hs => by
      rw [newLeaves_append]
      exact h.step hins (effect_of_apply hs))
    (genesis ledger) xs [] (keepsTree_genesis ledger) fun _ _ => trivial
  simpa using hrun

/-- A root that the pallet accepts. -/
theorem KeepsTree.anchored (h : KeepsTree hash2 s leaves) {root : U8Array 32}
    (hroot : s.V2RootAnchored root) :
    root = U8Array.zero 32 ∨ root = zeroSubtrees hash2 merkleDepth ∨
      ∃ k, k ≤ leaves.length ∧ k < 2 ^ merkleDepth ∧
        root = node hash2 (leafAt (leaves.take k)) merkleDepth 0 := by
  have hprefix : ∃ k, k ≤ leaves.length ∧ root = treeRoot hash2 (leaves.take k) := by
    rcases hroot with hcur | hrec
    · exact ⟨leaves.length, le_rfl, by rw [hcur, h.current, List.take_length]⟩
    · obtain ⟨k, -, hlt, hr⟩ := h.recent root hrec
      exact ⟨k, hlt.le, hr⟩
  obtain ⟨k, hk, hr⟩ := hprefix
  have hlen : (leaves.take k).length = k := List.length_take_of_le hk
  unfold treeRoot at hr
  split_ifs at hr with hnil hroom
  · exact .inl hr
  · exact .inr (.inr ⟨k, hk, hlen ▸ hroom, hr⟩)
  · exact .inr (.inl hr)

end NullaRelay.ProofHub
