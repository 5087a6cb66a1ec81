import NullaRelay.ProofHub.Accepting

/-!
# The storage of the v2 tree

The index, the frontier, the current root and the window of recent roots, in
every run from genesis, in terms of the leaves inserted. The window leaves out the
root from before the first insertion, but until then this root is the current one:
a root that the pallet accepts is the root of some leaves exactly when there is a
leaf.
-/

namespace NullaRelay.ProofHub

open NullaRelay.Frame V2 Transition

variable {hash2 : U8Array 32 → U8Array 32 → U8Array 32} {A L : Type} {T : Config A L}
  {s s' : State L} {leaves : List (U8Array 32)}

variable (hash2) in
/-- The root that the pallet stores after the first `k` leaves. -/
def storedRoot (leaves : List (U8Array 32)) (k : ℕ) : U8Array 32 :=
  treeRoot hash2 (leaves.take k)

variable (hash2) in
/-- `Frontier::root` after the first `k` leaves. -/
def rootAfter (leaves : List (U8Array 32)) (k : ℕ) : Option (U8Array 32) :=
  (Frontier.insertAll hash2 (leaves.take k)).map (Frontier.root hash2)

/-- The roots that were current before the last of `n` leaves, from the first
insertion on. -/
def pastRoots (hash2 : U8Array 32 → U8Array 32 → U8Array 32) (leaves : List (U8Array 32)) :
    List (U8Array 32) :=
  (List.range' 1 (leaves.length - 1)).map (storedRoot hash2 leaves)

variable (hash2 s leaves) in
/-- The storage in terms of the leaves. -/
structure StoresTree : Prop where
  frontier : Frontier.insertAll hash2 leaves = some s.frontierV2
  nodup : leaves.Nodup
  indexed : NoteTree.IndexOf s.leafIndexV2 leaves
  recent : s.recentRootsV2.val = (pastRoots hash2 leaves).rtake 64

theorem storesTree_genesis (ledger : L) : StoresTree hash2 (genesis ledger) [] where
  frontier := rfl
  nodup := List.nodup_nil
  indexed leaf i := by simp [genesis]
  recent := rfl

theorem storedRoot_append {k : ℕ} (h : k ≤ leaves.length) (leaf : U8Array 32) :
    storedRoot hash2 (leaves ++ [leaf]) k = storedRoot hash2 leaves k := by
  rw [storedRoot, List.take_append_of_le_length h, storedRoot]

/-- A further leaf makes the root before it a past one, unless it was the first. -/
theorem pastRoots_append (hne : leaves ≠ []) (leaf : U8Array 32) :
    pastRoots hash2 (leaves ++ [leaf]) = pastRoots hash2 leaves ++ [treeRoot hash2 leaves] := by
  have hpos : 0 < leaves.length := List.length_pos_iff.2 hne
  have hlen : (leaves ++ [leaf]).length - 1 = leaves.length - 1 + 1 := by
    rw [List.length_append, List.length_singleton]
    omega
  have hlast : 1 + (leaves.length - 1) = leaves.length := by omega
  have hold : ∀ k ∈ List.range' 1 (leaves.length - 1),
      storedRoot hash2 (leaves ++ [leaf]) k = storedRoot hash2 leaves k := by
    intro k hk
    have hlt := (List.mem_range'_1.1 hk).2
    exact storedRoot_append (by omega) leaf
  rw [pastRoots, hlen, List.range'_1_concat, List.map_append, List.map_singleton, hlast,
    List.map_congr_left hold, storedRoot_append le_rfl, storedRoot, List.take_length]
  rfl

theorem StoresTree.step (hins : T.proofVerifier.v2InsertLeaf = v2InsertLeaf hash2)
    (hkeeps : KeepsTree hash2 s leaves) (h : StoresTree hash2 s leaves) {f : Footprint}
    (heff : Effect T s s' f) : StoresTree hash2 s' (leaves ++ f.leaf.toList) := by
  have htree := heff.tree
  cases hleaf : f.leaf with
  | none =>
      rw [hleaf] at htree
      obtain ⟨hfrontier, -, hrecent, hindex⟩ := htree
      rw [Option.toList_none, List.append_nil]
      constructor
      · rw [hfrontier]
        exact h.frontier
      · exact h.nodup
      · rw [hindex]
        exact h.indexed
      · rw [hrecent]
        exact h.recent
  | some leaf =>
      rw [hleaf] at htree
      obtain ⟨hfree, hroot, hrecent, hindex⟩ := htree
      have hnew : leaf ∉ leaves := (hkeeps.indexed leaf).1 hfree
      rw [hins] at hroot
      rw [Option.toList_some]
      constructor
      · obtain ⟨t, ht, hpair⟩ := Option.bind_eq_some_iff.1 hroot
        obtain rfl : t = s'.frontierV2 := congrArg Prod.fst (Option.some.inj hpair)
        rw [Frontier.insertAll_append, h.frontier, Option.bind_some, ht]
      · exact h.nodup.append (List.nodup_singleton leaf) (by simpa using hnew)
      · rw [hindex]
        exact h.indexed.append_singleton hnew hkeeps.holds.count
      · rw [hrecent]
        rcases eq_or_ne leaves [] with rfl | hne
        · rw [if_neg]
          · exact h.recent
          · rw [UInt32.lt_iff_toNat_lt, hkeeps.holds.count]
            exact Nat.lt_irrefl 0
        · rw [if_pos, hkeeps.current, pastRoots_append hne]
          · exact NoteTree.pushRoot_rtake h.recent _
          · rw [UInt32.lt_iff_toNat_lt, hkeeps.holds.count]
            exact List.length_pos_iff.2 hne

/-- In every run from genesis the storage is that of the leaves added. -/
theorem storesTree_run (hins : T.proofVerifier.v2InsertLeaf = v2InsertLeaf hash2) (ledger : L)
    (xs : List (Extrinsic A)) :
    StoresTree hash2 (run (apply T) (genesis ledger) xs)
      (newLeaves (history (apply T) (genesis ledger) xs)) := by
  have hrun := @history_invariant _ _ _ (apply T) (fun _ _ => True)
    (fun s past => KeepsTree hash2 s (newLeaves past) ∧ StoresTree hash2 s (newLeaves past))
    (fun s x s' past h _ hs => by
      have heff := effect_of_apply hs
      rw [newLeaves_append]
      exact ⟨h.1.step hins heff, h.2.step hins h.1 heff⟩)
    (genesis ledger) xs [] ⟨keepsTree_genesis ledger, storesTree_genesis ledger⟩
    fun _ _ => trivial
  simpa using hrun.2

theorem rootAfter_eq_some (hlen : leaves.length ≤ 2 ^ merkleDepth) {k : ℕ} (hpos : 0 < k)
    (hk : k ≤ leaves.length) : rootAfter hash2 leaves k = some (storedRoot hash2 leaves k) := by
  have htake : (leaves.take k).length = k := List.length_take_of_le hk
  obtain ⟨t, ht, hholds⟩ : ∃ t, Frontier.insertAll hash2 (leaves.take k) = some t ∧
      t.Holds hash2 (leaves.take k) := Frontier.insertAll_holds (by omega)
  have hne : leaves.take k ≠ [] := by
    rw [← List.length_pos_iff, htake]
    exact hpos
  rw [rootAfter, ht, Option.map_some, treeRoot_of_holds hholds hne, storedRoot]

/-- The window of past roots. -/
theorem mem_recent_iff {r : U8Array 32} :
    r ∈ (pastRoots hash2 leaves).rtake 64 ↔
      ∃ k, max 1 (leaves.length - 64) ≤ k ∧ k < leaves.length ∧ storedRoot hash2 leaves k = r := by
  have hwindow : (pastRoots hash2 leaves).rtake 64 =
      (List.range' (1 + (leaves.length - 65)) (leaves.length - 1 - (leaves.length - 65))).map
        (storedRoot hash2 leaves) := by
    have hlen : (pastRoots hash2 leaves).length - 64 = leaves.length - 65 := by
      rw [pastRoots, List.length_map, List.length_range']
      omega
    rw [List.rtake, hlen, pastRoots, ← List.map_drop, List.drop_range', Nat.mul_one]
  rw [hwindow, List.mem_map]
  refine exists_congr fun k => ?_
  rw [List.mem_range'_1, and_assoc]
  constructor
  · rintro ⟨hlo, hhi, hr⟩
    exact ⟨by omega, by omega, hr⟩
  · rintro ⟨hlo, hhi, hr⟩
    exact ⟨by omega, by omega, hr⟩

variable (hash2 s leaves) in
/-- What is promised of the storage: the index has the leaves in order, the frontier
is theirs, and the roots accepted are those after the last insertions. -/
structure TreeConsistent : Prop where
  nodup : leaves.Nodup
  indexed : ∀ leaf i, s.leafIndexV2 leaf = some i ↔ leaves[i.toNat]? = some leaf
  count : s.frontierV2.leafCount.toNat = leaves.length
  frontier : Frontier.insertAll hash2 leaves = some s.frontierV2
  anchored : ∀ r, s.V2RootAnchored r ↔
    ∃ k, max 1 (leaves.length - 64) ≤ k ∧ k ≤ leaves.length ∧ rootAfter hash2 leaves k = some r

/-- With a leaf in the tree exactly the last roots are accepted. -/
theorem anchored_iff (hkeeps : KeepsTree hash2 s leaves) (h : StoresTree hash2 s leaves)
    (hne : leaves ≠ []) (r : U8Array 32) :
    s.V2RootAnchored r ↔ ∃ k, max 1 (leaves.length - 64) ≤ k ∧ k ≤ leaves.length ∧
      rootAfter hash2 leaves k = some r := by
  have hpos : 0 < leaves.length := List.length_pos_iff.2 hne
  have hcurrent : s.currentRootV2 = storedRoot hash2 leaves leaves.length := by
    rw [hkeeps.current, storedRoot, List.take_length]
  rw [State.V2RootAnchored, h.recent, mem_recent_iff, hcurrent]
  constructor
  · rintro (rfl | ⟨k, hlo, hhi, rfl⟩)
    · exact ⟨leaves.length, by omega, le_rfl, rootAfter_eq_some hkeeps.holds.room hpos le_rfl⟩
    · exact ⟨k, hlo, hhi.le, rootAfter_eq_some hkeeps.holds.room (by omega) hhi.le⟩
  · rintro ⟨k, hlo, hhi, hr⟩
    rw [rootAfter_eq_some hkeeps.holds.room (by omega) hhi] at hr
    obtain rfl := Option.some.inj hr
    rcases hhi.lt_or_eq with hlt | rfl
    · exact .inr ⟨k, hlo, hlt, rfl⟩
    · exact .inl rfl

/-- In every run from genesis the storage is as promised exactly when a leaf was
inserted. -/
theorem treeConsistent_iff_inserted (T : Config A L)
    (hins : T.proofVerifier.v2InsertLeaf = v2InsertLeaf hash2) (ledger : L)
    (xs : List (Extrinsic A)) :
    TreeConsistent hash2 (run (apply T) (genesis ledger) xs)
        (newLeaves (history (apply T) (genesis ledger) xs)) ↔
      newLeaves (history (apply T) (genesis ledger) xs) ≠ [] := by
  have hkeeps := keepsTree_run hins ledger xs
  have hstores := storesTree_run hins ledger xs
  constructor
  · rintro hconsistent hnil
    rw [hnil] at hconsistent
    obtain ⟨k, hlo, hhi, -⟩ := (hconsistent.anchored _).1 (.inl rfl)
    rw [List.length_nil] at hhi
    omega
  · intro hne
    exact ⟨hstores.nodup, hstores.indexed, hkeeps.holds.count, hstores.frontier,
      anchored_iff hkeeps hstores hne⟩

/-- Before the first insertion the zero root is accepted. -/
theorem genesis_root_anchored :
    ¬ ∀ (hash2 : U8Array 32 → U8Array 32 → U8Array 32) (T : Config (U8Array 32) (U8Array 32 → ℕ)),
      T.proofVerifier.v2InsertLeaf = v2InsertLeaf hash2 → ∀ xs : List (Extrinsic (U8Array 32)),
        TreeConsistent hash2 (run (apply T) (genesis tenEach) xs)
          (newLeaves (history (apply T) (genesis tenEach) xs)) := by
  intro hclaim
  have hconsistent := hclaim _ constantConfig rfl []
  have hzero : (genesis tenEach).V2RootAnchored (U8Array.zero 32) := .inl rfl
  obtain ⟨k, hlo, hhi, -⟩ := (hconsistent.anchored _).1 hzero
  exact absurd (le_trans (le_max_left 1 _) hlo) (Nat.not_le.2 (Nat.lt_succ_of_le hhi))

/-- The open market has one leaf. -/
theorem openMarket_consistent_iff :
    TreeConsistent (merkleHash2 (poseidonHashes fun _ => U8Array.zero 32))
        (run (apply constantConfig) (genesis tenEach) openMarket)
        (newLeaves (history (apply constantConfig) (genesis tenEach) openMarket)) ↔
      newLeaves (history (apply constantConfig) (genesis tenEach) openMarket) ≠ [] :=
  treeConsistent_iff_inserted constantConfig rfl tenEach openMarket

end NullaRelay.ProofHub
