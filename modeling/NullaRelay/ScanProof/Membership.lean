import NullaRelay.Foundations.PaddedPaths
import NullaRelay.ScanProof.NoteStorage

/-!
# Two ways to show that a note is in the tree

An input of a private transfer is looked up by its path to the root, or by its index
where no path is given. Both accept the notes of a tree of two leaves or more. The
path check fixes neither the length of the path nor what is a leaf: it also accepts
the last leaf hash of a tree whose number of leaves is odd, a zero in the filling, and
whatever folds to a note.
-/

namespace NullaRelay.ScanProof

open NullaRelay.Frame Transition Merkle

variable {A L : Type} {T : Config A L} {s : State L}
  {past : List (State L × Extrinsic A T.maxRangeProofSize)} {anchor c : U8Array 32}

variable (T) in
/-- The membership check by a path. -/
def pathAnchored (anchor : U8Array 32) (idx : UInt32) (path : List (U8Array 32))
    (c : U8Array 32) : Bool :=
  pathRoot T (leafHash T c) idx.toNat path = anchor

/-- The membership check by the index. -/
def indexAnchored (s : State L) (anchor c : U8Array 32) : Bool :=
  match s.commitmentIndex c with
  | some idx => idx < s.rootLeafCount anchor
  | none => false

theorem inputAnchored_path {inputs : ProofPublicInputs} {i : ℕ} {path : List (U8Array 32)}
    {idx : UInt32} (hpath : inputs.inputPaths[i]? = some path) (hne : path ≠ [])
    (hidx : inputs.inputIndices[i]? = some idx) :
    inputAnchored T s inputs i c = pathAnchored T inputs.merkleRoot idx path c := by
  obtain ⟨sib, rest, rfl⟩ := List.exists_cons_of_ne_nil hne
  rw [inputAnchored, hpath, hidx, pathAnchored]

theorem inputAnchored_index {inputs : ProofPublicInputs} {i : ℕ}
    (hnone : inputs.inputPaths[i]? = none ∨ inputs.inputPaths[i]? = some [] ∨
      inputs.inputIndices[i]? = none) :
    inputAnchored T s inputs i c = indexAnchored s inputs.merkleRoot c := by
  rw [inputAnchored, indexAnchored]
  split
  · rename_i sib path idx hpath hidx
    rw [hpath, hidx] at hnone
    simp at hnone
  · rfl

theorem pathRoot_eq (x : U8Array 32) (i : ℕ) (ss : List (U8Array 32)) :
    pathRoot T x i ss = Merkle.pathRoot (hash2 T) ss i x := by
  induction ss generalizing x i with
  | nil => rfl
  | cons sib ss ih =>
      rw [pathRoot, ih, Merkle.pathRoot, children]
      split_ifs with hbit
      · rfl
      · rfl

variable (T) in
/-- The path check accepts `c` at some index with some path, all of whose pairs are in
`S`. -/
def PathAccepts (S : Set (U8Array 32 × U8Array 32)) (anchor c : U8Array 32) : Prop :=
  ∃ (idx : UInt32) (path : List (U8Array 32)), path ≠ [] ∧ (c, U8Array.zero 32) ∈ S ∧
    (∀ p ∈ pathPairs (hash2 T) path idx.toNat (leafHash T c), p ∈ S) ∧
    pathAnchored T anchor idx path c = true

variable (T) in
/-- Whatever the path check accepts the index check accepts, and where the tree has two
leaves the other way round. -/
def MembershipAgrees (S : Set (U8Array 32 × U8Array 32)) (s : State L)
    (anchor c : U8Array 32) : Prop :=
  (PathAccepts T S anchor c → indexAnchored s anchor c = true) ∧
    (2 ≤ s.rootLeafCount anchor → indexAnchored s anchor c = true → PathAccepts T S anchor c)

/-- The notes of the tree with this root. -/
def anchoredNotes {R : ℕ} (past : List (State L × Extrinsic A R)) (s : State L)
    (anchor : U8Array 32) : List (U8Array 32) :=
  (insertedNotes past).take (s.rootLeafCount anchor).toNat

variable (T) in
/-- What only the path check takes for a note: a leaf next to filling, and what folds to
a note. -/
def Imitates (S : Set (U8Array 32 × U8Array 32)) (notes : List (U8Array 32))
    (c : U8Array 32) : Prop :=
  PaddedPair (hash2 T) (U8Array.zero 32) notes c ∨
    FoldsToNote (hash2 T) (U8Array.zero 32) S (2 ^ 32) notes c

theorem pathAccepts_iff {S : Set (U8Array 32 × U8Array 32)} :
    PathAccepts T S anchor c ↔
      PathOpens (hash2 T) (U8Array.zero 32) S (2 ^ 32) anchor c := by
  constructor
  · rintro ⟨idx, path, hne, hc, hpairs, hroot⟩
    refine ⟨idx.toNat, path, idx.toNat_lt, hne, hc, hpairs, ?_⟩
    rw [pathAnchored, pathRoot_eq, decide_eq_true_iff] at hroot
    exact hroot
  · rintro ⟨i, path, hi, hne, hc, hpairs, hroot⟩
    have htoNat : (UInt32.ofNat i).toNat = i := UInt32.toNat_ofNat_of_lt' hi
    refine ⟨UInt32.ofNat i, path, hne, hc, ?_, ?_⟩
    · rw [htoNat]
      exact hpairs
    · rw [pathAnchored, pathRoot_eq, decide_eq_true_iff, htoNat]
      exact hroot

/-- The root is that of a state that the run went through. -/
theorem StoresNotes.exists_visited (h : StoresNotes T s past)
    (hanchor : anchor = s.currentRoot ∨ anchor ∈ s.recentRoots.val) :
    ∃ t ∈ visited past s, t.currentRoot = anchor := by
  rcases hanchor with rfl | hrecent
  · exact ⟨s, by simp [visited], rfl⟩
  · rw [h.recentRoots] at hrecent
    obtain ⟨e, he, rfl⟩ := List.mem_map.1 (List.mem_of_mem_drop hrecent)
    exact ⟨e.1, List.mem_append_left _ (List.mem_map_of_mem (List.mem_of_mem_filter he)), rfl⟩

theorem mem_hashedPairs_of_inserted (hc : c ∈ insertedNotes past) :
    (c, U8Array.zero 32) ∈ hashedPairs T past := by
  obtain ⟨e, he, hmem⟩ := List.mem_flatMap.1 hc
  cases hcs : e.2.call.newNotes with
  | none => simp [hcs] at hmem
  | some cs =>
      rw [hcs, Option.getD_some] at hmem
      exact ⟨e, he, cs, hcs, .inl ⟨hmem, rfl⟩⟩

variable (T) in
/-- What a root stands for: its notes, as many as are counted, whose tree was hashed. -/
structure Anchored (S : Set (U8Array 32 × U8Array 32)) (notes : List (U8Array 32)) (k : ℕ)
    (anchor : U8Array 32) : Prop where
  length : notes.length = k
  root : anchor = paddedRoot (hash2 T) (U8Array.zero 32)
    (noteLeaves (hash2 T) (U8Array.zero 32) notes)
  tree : paddedPairs (hash2 T) (U8Array.zero 32)
    (noteLeaves (hash2 T) (U8Array.zero 32) notes) ⊆ S
  leaves : ∀ c ∈ notes, (c, U8Array.zero 32) ∈ S

theorem StoresNotes.anchored (h : StoresNotes T s past)
    (hanchor : anchor = s.currentRoot ∨ anchor ∈ s.recentRoots.val) :
    Anchored T (hashedPairs T past) (anchoredNotes past s anchor)
      (s.rootLeafCount anchor).toNat anchor := by
  obtain ⟨t, ht, rfl⟩ := h.exists_visited hanchor
  have hsnap := h.snapshots t ht
  have hleaves : t.leaves.val = noteLeaves (hash2 T) (U8Array.zero 32)
      (anchoredNotes past s t.currentRoot) := by
    rw [List.prefix_iff_eq_take.1 hsnap.leaves, h.leaves, ← List.map_take, anchoredNotes,
      hsnap.count]
    rfl
  refine
    { length := ?_
      root := ?_
      tree := ?_
      leaves := fun c hc => mem_hashedPairs_of_inserted (List.mem_of_mem_take hc) }
  · rw [hsnap.count, hleaves, length_noteLeaves]
  · rw [← hleaves, hsnap.root, computeMerkleRoot, NoteTree.computeMerkleRoot_eq]
    rfl
  · rw [← hleaves]
    exact hsnap.hashed

theorem StoresNotes.indexAnchored_iff (h : StoresNotes T s past) :
    indexAnchored s anchor c = true ↔ c ∈ anchoredNotes past s anchor := by
  have hindex := h.commitmentIndex c
  rw [indexAnchored, anchoredNotes]
  constructor
  · intro hanchored
    cases hidx : s.commitmentIndex c with
    | none => simp [hidx] at hanchored
    | some idx =>
        rw [hidx, decide_eq_true_iff, UInt32.lt_iff_toNat_lt] at hanchored
        refine List.mem_of_getElem? (i := idx.toNat) ?_
        rw [List.getElem?_take_of_lt hanchored]
        exact (hindex idx).1 hidx
  · intro hmem
    obtain ⟨j, hj⟩ := List.getElem?_of_mem hmem
    have hlt : j < (s.rootLeafCount anchor).toNat := by
      have hlen := (List.getElem?_eq_some_iff.1 hj).1
      rw [List.length_take] at hlen
      omega
    rw [List.getElem?_take_of_lt hlt] at hj
    have htoNat : (UInt32.ofNat j).toNat = j :=
      UInt32.toNat_ofNat_of_lt' (hlt.trans (UInt32.toNat_lt _))
    rw [(hindex (UInt32.ofNat j)).2 (by rw [htoNat, hj]), decide_eq_true_iff,
      UInt32.lt_iff_toNat_lt, htoNat]
    exact hlt

theorem StoresNotes.pathAccepts_iff (h : StoresNotes T s past)
    (hzero : ∀ bytes, T.blake2_256 bytes ≠ U8Array.zero 32) {S : Set (U8Array 32 × U8Array 32)}
    (hS : hashedPairs T past ⊆ S) (hinj : Set.InjOn (fun p => hash2 T p.1 p.2) S)
    (hanchor : anchor = s.currentRoot ∨ anchor ∈ s.recentRoots.val) :
    PathAccepts T S anchor c ↔
      2 ≤ s.rootLeafCount anchor ∧ c ∈ anchoredNotes past s anchor ∨
        Imitates T S (anchoredNotes past s anchor) c := by
  have hanchored := h.anchored hanchor
  have hhash : ∀ a b, hash2 T a b ≠ U8Array.zero 32 := fun a b => hzero _
  have hbound : (anchoredNotes past s anchor).length ≤ 2 ^ 32 := by
    rw [hanchored.length]
    exact (UInt32.toNat_lt _).le
  have hopens := pathOpens_iff (c := c) hhash hinj (fun c hc => hS (hanchored.leaves c hc))
    (hanchored.tree.trans hS) hbound
  rw [← hanchored.root, ← ScanProof.pathAccepts_iff, hanchored.length] at hopens
  rw [hopens, UInt32.le_iff_toNat_le]
  rfl

/-- The two checks agree about a string exactly when it is a note of the tree or does not
imitate one. -/
theorem membership_agrees_iff (hzero : ∀ bytes, T.blake2_256 bytes ≠ U8Array.zero 32)
    (ledger : L) (xs : List (Extrinsic A T.maxRangeProofSize)) {S : Set (U8Array 32 × U8Array 32)}
    (hS : hashedPairs T (history (apply T) (genesis ledger) xs) ⊆ S)
    (hinj : Set.InjOn (fun p => hash2 T p.1 p.2) S) {anchor : U8Array 32}
    (hanchor : anchor = (run (apply T) (genesis ledger) xs).currentRoot ∨
      anchor ∈ (run (apply T) (genesis ledger) xs).recentRoots.val) (c : U8Array 32) :
    MembershipAgrees T S (run (apply T) (genesis ledger) xs) anchor c ↔
      c ∈ anchoredNotes (history (apply T) (genesis ledger) xs)
          (run (apply T) (genesis ledger) xs) anchor ∨
        ¬ Imitates T S (anchoredNotes (history (apply T) (genesis ledger) xs)
          (run (apply T) (genesis ledger) xs) anchor) c := by
  have hstore := storesNotes_run hzero ledger xs (hinj.mono hS)
  rw [MembershipAgrees, hstore.indexAnchored_iff, hstore.pathAccepts_iff hzero hS hinj hanchor]
  constructor
  · rintro ⟨hpath, -⟩
    by_contra hneither
    rw [not_or, not_not] at hneither
    exact hneither.1 (hpath (.inr hneither.2))
  · rintro (hmem | himitates)
    · exact ⟨fun _ => hmem, fun hlen _ => .inl ⟨hlen, hmem⟩⟩
    · refine ⟨?_, fun hlen hmem => .inl ⟨hlen, hmem⟩⟩
      rintro (⟨-, hmem⟩ | himitated)
      · exact hmem
      · exact absurd himitated himitates

section Example

/-- The lane under the marked hash, after three deposits. -/
def threeDeposits :
    List (Extrinsic (U8Array 32) (vectorConfig.withHash markedHash).maxRangeProofSize) :=
  [noteDeposit firstNote, noteDeposit secondNote, noteDeposit thirdNote]

noncomputable def threeNotes : State (U8Array 32 → ℕ) :=
  run (apply (vectorConfig.withHash markedHash)) (genesis fun _ => 100) threeDeposits

noncomputable def threePast : List (State (U8Array 32 → ℕ) ×
    Extrinsic (U8Array 32) (vectorConfig.withHash markedHash).maxRangeProofSize) :=
  history (apply (vectorConfig.withHash markedHash)) (genesis fun _ => 100) threeDeposits

theorem threeNotes_stored :
    StoresNotes (vectorConfig.withHash markedHash) threeNotes threePast :=
  storesNotes_run markedHash_ne_zero (fun _ => 100) threeDeposits noteDeposits_collisionFree

theorem threeNotes_anchored : anchoredNotes threePast threeNotes threeNotes.currentRoot =
    [firstNote, secondNote, thirdNote] := by
  obtain ⟨s₁, s₂, -, -, hhist⟩ := noteDeposits_history
  have hcount := (threeNotes_stored.snapshots threeNotes (by simp [visited])).count
  have hnotes : insertedNotes threePast = [firstNote, secondNote, thirdNote] := by
    rw [threePast, threeDeposits, hhist]
    simp [insertedNotes, noteDeposit_newNotes]
  rw [anchoredNotes, hcount, threeNotes_stored.leaves, hnotes]
  rfl

/-- The leaf hash of the third note is accepted by its sibling, as a note at index one. -/
theorem third_leaf_accepted :
    ¬ ∀ (T : Config (U8Array 32) (U8Array 32 → ℕ)) (ledger : U8Array 32 → ℕ)
      (xs : List (Extrinsic (U8Array 32) T.maxRangeProofSize))
      (S : Set (U8Array 32 × U8Array 32)) (anchor c : U8Array 32),
      (∀ bytes, T.blake2_256 bytes ≠ U8Array.zero 32) →
      hashedPairs T (history (apply T) (genesis ledger) xs) ⊆ S →
      Set.InjOn (fun p => hash2 T p.1 p.2) S →
      (anchor = (run (apply T) (genesis ledger) xs).currentRoot ∨
        anchor ∈ (run (apply T) (genesis ledger) xs).recentRoots.val) →
      MembershipAgrees T S (run (apply T) (genesis ledger) xs) anchor c := by
  intro hclaim
  have hagrees : MembershipAgrees (vectorConfig.withHash markedHash)
      (hashedPairs (vectorConfig.withHash markedHash) threePast) threeNotes
      threeNotes.currentRoot (NoteTree.leafHash markedHash thirdNote) :=
    hclaim _ (fun _ => 100) threeDeposits _ _ _ markedHash_ne_zero subset_rfl
      noteDeposits_collisionFree (.inl rfl)
  have himitates : Imitates (vectorConfig.withHash markedHash)
      (hashedPairs (vectorConfig.withHash markedHash) threePast)
      [firstNote, secondNote, thirdNote] (NoteTree.leafHash markedHash thirdNote) := by
    have hclog : Nat.clog 2 3 = 2 := rfl
    have hheight : height [firstNote, secondNote, thirdNote] = 2 := hclog
    exact .inl ⟨1, by rw [hheight]; decide, le_rfl, by rw [hheight]; decide, rfl⟩
  have hpath := (threeNotes_stored.pathAccepts_iff markedHash_ne_zero subset_rfl
    noteDeposits_collisionFree (.inl rfl)).2 (.inr (threeNotes_anchored ▸ himitates))
  have hindex := threeNotes_stored.indexAnchored_iff.1 (hagrees.1 hpath)
  rw [threeNotes_anchored] at hindex
  revert hindex
  unfold NoteTree.leafHash markedHash
  decide

/-- For a note itself there is nothing to tell apart. -/
theorem second_note_agrees_iff :
    MembershipAgrees (vectorConfig.withHash markedHash)
        (hashedPairs (vectorConfig.withHash markedHash) threePast) threeNotes
        threeNotes.currentRoot secondNote ↔
      secondNote ∈ anchoredNotes threePast threeNotes threeNotes.currentRoot ∨
        ¬ Imitates (vectorConfig.withHash markedHash)
          (hashedPairs (vectorConfig.withHash markedHash) threePast)
          (anchoredNotes threePast threeNotes threeNotes.currentRoot) secondNote :=
  membership_agrees_iff markedHash_ne_zero (fun _ => 100) threeDeposits subset_rfl
    noteDeposits_collisionFree (.inl rfl) secondNote

end Example

end NullaRelay.ScanProof
