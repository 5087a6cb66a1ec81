import NullaRelay.Foundations.Transition
import NullaRelay.Frame.NoteRoots
import NullaRelay.ScanProof.Deposit
import NullaRelay.ScanProof.Effects

/-!
# The note tree storage over a whole run

Every state of a run is a snapshot of its later states: its leaves are a prefix of
theirs, and the leaf count stored for its root is still the one it had. The count is
never overwritten, because trees of different sizes have different roots as long as
the hash is never zero and does not collide on the pairs that the run hashes.
-/

namespace NullaRelay.ScanProof

open NullaRelay.Frame Transition

variable {A L : Type} {T : Config A L} {s s' t : State L}
  {past : List (State L × Extrinsic A T.maxRangeProofSize)}

/-- The notes that a history inserts, in order. -/
def insertedNotes {R : ℕ} (past : List (State L × Extrinsic A R)) : List (U8Array 32) :=
  past.flatMap fun e => e.2.call.newNotes.getD []

/-- The calls of a history that move the root. -/
def updates {R : ℕ} (past : List (State L × Extrinsic A R)) : List (State L × Extrinsic A R) :=
  past.filter fun e => e.2.call.newNotes.isSome

/-- The states that a run went through, up to the present one. -/
def visited {R : ℕ} (past : List (State L × Extrinsic A R)) (s : State L) : List (State L) :=
  past.map Prod.fst ++ [s]

variable (T) in
/-- The pairs that the updates of a history hash: for the new leaves, and for the
root over all leaves. -/
def hashedPairs (past : List (State L × Extrinsic A T.maxRangeProofSize)) :
    Set (U8Array 32 × U8Array 32) :=
  {p | ∃ e ∈ past, ∃ cs, e.2.call.newNotes = some cs ∧ (p ∈ NoteTree.leafPairs cs ∨
    p ∈ NoteTree.treePairs T.blake2_256 (e.1.leaves.val ++ cs.map (leafHash T)))}

variable (T) in
/-- The hash does not collide on the pairs that the history hashes. -/
def CollisionFree (past : List (State L × Extrinsic A T.maxRangeProofSize)) : Prop :=
  Set.InjOn (fun p => hash2 T p.1 p.2) (hashedPairs T past)

theorem hashedPairs_append (rest : List (State L × Extrinsic A T.maxRangeProofSize)) :
    hashedPairs T past ⊆ hashedPairs T (past ++ rest) := by
  rintro p ⟨e, he, hp⟩
  exact ⟨e, List.mem_append_left _ he, hp⟩

variable (T) in
/-- What the state keeps of an earlier one, whose leaves were hashed from pairs in
`S`. -/
structure Snapshot (S : Set (U8Array 32 × U8Array 32)) (s t : State L) : Prop where
  notes : ∃ cs, t.leaves.val = cs.map (leafHash T) ∧ NoteTree.leafPairs cs ⊆ S
  hashed : NoteTree.treePairs T.blake2_256 t.leaves.val ⊆ S
  leaves : t.leaves.val <+: s.leaves.val
  root : t.currentRoot = computeMerkleRoot T t.leaves.val
  count : (s.rootLeafCount t.currentRoot).toNat = t.leaves.val.length

theorem Snapshot.mono {S S' : Set (U8Array 32 × U8Array 32)} (h : Snapshot T S s t) (hS : S ⊆ S') :
    Snapshot T S' s t := by
  obtain ⟨cs, hcs, hpairs⟩ := h.notes
  exact ⟨⟨cs, hcs, hpairs.trans hS⟩, h.hashed.trans hS, h.leaves, h.root, h.count⟩

theorem Snapshot.congr {S : Set (U8Array 32 × U8Array 32)} (h : Snapshot T S s t)
    (heq : s'.notes = s.notes) : Snapshot T S s' t := by
  have hleaves : s'.leaves = s.leaves := congrArg NoteStore.leaves heq
  have hcount : s'.rootLeafCount = s.rootLeafCount := congrArg NoteStore.rootLeafCount heq
  refine ⟨h.notes, h.hashed, ?_, h.root, ?_⟩
  · rw [hleaves]
    exact h.leaves
  · rw [hcount]
    exact h.count

/-- The present state of a store that did not change. -/
theorem Snapshot.congr_self {S : Set (U8Array 32 × U8Array 32)} (h : Snapshot T S s s)
    (heq : s'.notes = s.notes) : Snapshot T S s' s' := by
  have hleaves : s'.leaves = s.leaves := congrArg NoteStore.leaves heq
  have hroot : s'.currentRoot = s.currentRoot := congrArg NoteStore.currentRoot heq
  have hcount : s'.rootLeafCount = s.rootLeafCount := congrArg NoteStore.rootLeafCount heq
  constructor
  · rw [hleaves]
    exact h.notes
  · rw [hleaves]
    exact h.hashed
  · exact List.prefix_rfl
  · rw [hroot, hleaves]
    exact h.root
  · rw [hcount, hroot, hleaves]
    exact h.count

variable (T) in
/-- The storage of the note tree after a history. -/
structure StoresNotes (s : State L) (past : List (State L × Extrinsic A T.maxRangeProofSize)) :
    Prop where
  nodup : (insertedNotes past).Nodup
  leaves : s.leaves.val = (insertedNotes past).map (leafHash T)
  commitmentIndex : NoteTree.IndexOf s.commitmentIndex (insertedNotes past)
  merkleRoot : s.merkleRoot = s.currentRoot
  recentRoots : s.recentRoots.val = ((updates past).map fun e => e.1.currentRoot).rtake 64
  snapshots : ∀ t ∈ visited past s, Snapshot T (hashedPairs T past) s t

theorem storesNotes_genesis (ledger : L) : StoresNotes T (genesis ledger) [] := by
  constructor
  · exact List.nodup_nil
  · rfl
  · intro c i
    simp [genesis, insertedNotes]
  · rfl
  · rfl
  · intro t ht
    obtain rfl : t = genesis ledger := by simpa [visited] using ht
    refine ⟨⟨[], rfl, fun p hp => absurd hp.1 (by simp)⟩, ?_, List.prefix_rfl, rfl, rfl⟩
    rintro p ⟨e, k, he, -⟩
    exact absurd he (by simp [Merkle.height, genesis, BoundedVec.empty])

theorem StoresNotes.kept (h : StoresNotes T s past) {x : Extrinsic A T.maxRangeProofSize}
    (hnone : x.call.newNotes = none) (heq : s'.notes = s.notes) :
    StoresNotes T s' (past ++ [(s, x)]) := by
  have hleaves : s'.leaves = s.leaves := congrArg NoteStore.leaves heq
  have hindex : s'.commitmentIndex = s.commitmentIndex := congrArg NoteStore.commitmentIndex heq
  have hroot : s'.currentRoot = s.currentRoot := congrArg NoteStore.currentRoot heq
  have hmerkle : s'.merkleRoot = s.merkleRoot := congrArg NoteStore.merkleRoot heq
  have hrecent : s'.recentRoots = s.recentRoots := congrArg NoteStore.recentRoots heq
  have hnotes : insertedNotes (past ++ [(s, x)]) = insertedNotes past := by
    simp [insertedNotes, hnone]
  have hupdates : updates (past ++ [(s, x)]) = updates past := by
    simp [updates, hnone]
  have hself : Snapshot T (hashedPairs T past) s s := h.snapshots s (by simp [visited])
  constructor
  · rw [hnotes]
    exact h.nodup
  · rw [hnotes, hleaves]
    exact h.leaves
  · rw [hnotes, hindex]
    exact h.commitmentIndex
  · rw [hmerkle, hroot]
    exact h.merkleRoot
  · rw [hupdates, hrecent]
    exact h.recentRoots
  · intro t ht
    have hcases : t ∈ visited past s ∨ t = s' := by simpa [visited, or_assoc] using ht
    rcases hcases with hold | rfl
    · exact ((h.snapshots t hold).congr heq).mono (hashedPairs_append _)
    · exact (hself.congr_self heq).mono (hashedPairs_append _)

/-- A snapshot outlives an insertion: the new root is none of the old ones, or it has
the same leaves. -/
theorem Snapshot.inserts {S : Set (U8Array 32 × U8Array 32)} {cs : List (U8Array 32)}
    (hzero : ∀ bytes, T.blake2_256 bytes ≠ U8Array.zero 32)
    (hinj : Set.InjOn (fun p => hash2 T p.1 p.2) S)
    (h : Snapshot T S s t) (hins : Inserts T s.notes s'.notes cs) (hself : Snapshot T S s' s') :
    Snapshot T S s' t := by
  have hleaves : s'.leaves.val = s.leaves.val ++ cs.map (leafHash T) := hins.leaves
  have hcount : s'.rootLeafCount = insertAt s.rootLeafCount s'.currentRoot
      (UInt32.ofNat s'.leaves.val.length) := hins.rootLeafCount
  have hprefix : t.leaves.val <+: s'.leaves.val := by
    rw [hleaves]
    exact h.leaves.trans (List.prefix_append _ _)
  refine ⟨h.notes, h.hashed, hprefix, h.root, ?_⟩
  by_cases hroot : t.currentRoot = s'.currentRoot
  · obtain ⟨ct, hct, htpairs⟩ := h.notes
    obtain ⟨c', hc', hpairs'⟩ := hself.notes
    have htree := h.hashed
    have htree' := hself.hashed
    have hroots := hroot
    rw [h.root, hself.root, hct, hc'] at hroots
    rw [hct] at htree
    rw [hc'] at htree'
    have hmap := NoteTree.leaves_eq_of_root_eq hzero hinj htpairs hpairs' htree htree' hroots
    have hsame : t.leaves.val = s'.leaves.val := (hct.trans hmap).trans hc'.symm
    rw [hroot, hsame]
    exact hself.count
  · rw [hcount, insertAt, Function.update_of_ne hroot]
    exact h.count

theorem StoresNotes.inserts (h : StoresNotes T s past) {x : Extrinsic A T.maxRangeProofSize}
    {cs : List (U8Array 32)} (hzero : ∀ bytes, T.blake2_256 bytes ≠ U8Array.zero 32)
    (hinj : CollisionFree T (past ++ [(s, x)])) (hcs : x.call.newNotes = some cs)
    (hins : Inserts T s.notes s'.notes cs) : StoresNotes T s' (past ++ [(s, x)]) := by
  have hleaves : s'.leaves.val = s.leaves.val ++ cs.map (leafHash T) := hins.leaves
  have hindex : s'.commitmentIndex = NoteTree.indexAll s.commitmentIndex s.leaves.val.length cs :=
    hins.commitmentIndex
  have hroot : s'.currentRoot = computeMerkleRoot T s'.leaves.val := hins.currentRoot
  have hmerkle : s'.merkleRoot = computeMerkleRoot T s'.leaves.val := hins.merkleRoot
  have hrecent : s'.recentRoots = NoteTree.pushRoot s.recentRoots s.currentRoot :=
    hins.recentRoots
  have hcount : s'.rootLeafCount = insertAt s.rootLeafCount s'.currentRoot
      (UInt32.ofNat s'.leaves.val.length) := hins.rootLeafCount
  have hnotes : insertedNotes (past ++ [(s, x)]) = insertedNotes past ++ cs := by
    simp [insertedNotes, hcs]
  have hupdates : updates (past ++ [(s, x)]) = updates past ++ [(s, x)] := by
    simp [updates, hcs]
  have hlength : s.leaves.val.length = (insertedNotes past).length := by
    rw [h.leaves, List.length_map]
  have hbound := s'.leaves.property
  rw [hleaves, List.length_append, List.length_map] at hbound
  have hnodup : (insertedNotes past ++ cs).Nodup := by
    refine h.nodup.append hins.nodup ?_
    intro c hold hnew
    exact h.commitmentIndex.notMem (by omega) (hins.fresh c hnew) hold
  have hhashed (p : U8Array 32 × U8Array 32) (hp : p ∈ NoteTree.leafPairs cs ∨
      p ∈ NoteTree.treePairs T.blake2_256 (s.leaves.val ++ cs.map (leafHash T))) :
      p ∈ hashedPairs T (past ++ [(s, x)]) := ⟨(s, x), by simp, cs, hcs, hp⟩
  have hself : Snapshot T (hashedPairs T (past ++ [(s, x)])) s' s' := by
    obtain ⟨old, hold, hpairs⟩ := (h.snapshots s (by simp [visited])).notes
    refine ⟨⟨old ++ cs, ?_, ?_⟩, ?_, List.prefix_rfl, hroot, ?_⟩
    · rw [hleaves, hold, List.map_append]
    · rintro p ⟨hp, hp0⟩
      rcases List.mem_append.1 hp with hmem | hmem
      · exact hashedPairs_append _ (hpairs ⟨hmem, hp0⟩)
      · exact hhashed p (.inl ⟨hmem, hp0⟩)
    · intro p hp
      rw [hleaves] at hp
      exact hhashed p (.inr hp)
    · have hlt : s'.leaves.val.length < 2 ^ 32 := s'.leaves.property.trans_lt (by decide)
      rw [hcount, insertAt, Function.update_self]
      exact UInt32.toNat_ofNat_of_lt' hlt
  constructor
  · rw [hnotes]
    exact hnodup
  · rw [hnotes, hleaves, List.map_append, h.leaves]
  · rw [hnotes, hindex, hlength]
    exact h.commitmentIndex.append hnodup (by omega)
  · rw [hmerkle, hroot]
  · rw [hupdates, List.map_append, hrecent]
    exact NoteTree.pushRoot_rtake h.recentRoots s.currentRoot
  · intro t ht
    have hcases : t ∈ visited past s ∨ t = s' := by simpa [visited, or_assoc] using ht
    rcases hcases with hold | rfl
    · exact ((h.snapshots t hold).mono (hashedPairs_append _)).inserts hzero hinj hins hself
    · exact hself

theorem StoresNotes.step (h : StoresNotes T s past) {x : Extrinsic A T.maxRangeProofSize}
    (hzero : ∀ bytes, T.blake2_256 bytes ≠ U8Array.zero 32)
    (hinj : CollisionFree T (past ++ [(s, x)])) (hok : apply T s x = .ok s') :
    StoresNotes T s' (past ++ [(s, x)]) := by
  have heff := (apply_effect hok).notes
  cases hcs : x.call.newNotes with
  | none =>
      rw [hcs] at heff
      exact h.kept hcs heff
  | some cs =>
      rw [hcs] at heff
      exact h.inserts hzero hinj hcs heff

theorem storesNotes_run (hzero : ∀ bytes, T.blake2_256 bytes ≠ U8Array.zero 32) (ledger : L)
    (xs : List (Extrinsic A T.maxRangeProofSize))
    (hinj : CollisionFree T (history (apply T) (genesis ledger) xs)) :
    StoresNotes T (run (apply T) (genesis ledger) xs)
      (history (apply T) (genesis ledger) xs) := by
  have hrun := history_invariant (Q := fun _ _ => True)
    (P := fun s past => CollisionFree T past → StoresNotes T s past)
    (fun s x s' past hpast _ (hok : apply T s x = .ok s') hinj =>
      (hpast (hinj.mono (hashedPairs_append _))).step hzero hinj hok)
    (genesis ledger) xs [] (fun _ => storesNotes_genesis ledger) fun _ _ => trivial
  exact hrun hinj

variable (T) in
/-- The index, the leaves, the roots and the leaf counts agree with each other and
with the past of the state. -/
structure NotesConsistent (s : State L) (past : List (State L × Extrinsic A T.maxRangeProofSize)) :
    Prop where
  injective : ∀ c c' i, s.commitmentIndex c = some i → s.commitmentIndex c' = some i → c = c'
  onto : ∀ i : UInt32, (∃ c, s.commitmentIndex c = some i) ↔ i.toNat < s.leaves.val.length
  leaf : ∀ c i, s.commitmentIndex c = some i → s.leaves.val[i.toNat]? = some (leafHash T c)
  currentRoot : s.currentRoot = computeMerkleRoot T s.leaves.val
  merkleRoot : s.merkleRoot = computeMerkleRoot T s.leaves.val
  length_le : s.leaves.val.length ≤ 1048576
  grown : ∀ e ∈ past, e.1.leaves.val <+: s.leaves.val
  recentRoots : s.recentRoots.val = ((updates past).map fun e => e.1.currentRoot).rtake 64
  counted : ∀ t ∈ visited past s, (s.rootLeafCount t.currentRoot).toNat = t.leaves.val.length

theorem StoresNotes.consistent (h : StoresNotes T s past) : NotesConsistent T s past := by
  have hself : Snapshot T (hashedPairs T past) s s := h.snapshots s (by simp [visited])
  constructor
  · intro c c' i hc hc'
    have hget := ((h.commitmentIndex c i).1 hc).symm.trans ((h.commitmentIndex c' i).1 hc')
    exact Option.some.inj hget
  · intro i
    rw [h.leaves, List.length_map]
    constructor
    · rintro ⟨c, hc⟩
      exact (List.getElem?_eq_some_iff.1 ((h.commitmentIndex c i).1 hc)).1
    · intro hi
      exact ⟨_, (h.commitmentIndex _ i).2 (List.getElem?_eq_getElem hi)⟩
  · intro c i hc
    rw [h.leaves, List.getElem?_map, (h.commitmentIndex c i).1 hc, Option.map_some]
  · exact hself.root
  · exact h.merkleRoot.trans hself.root
  · exact s.leaves.property
  · intro e he
    exact (h.snapshots e.1 (List.mem_append_left _ (List.mem_map_of_mem he))).leaves
  · exact h.recentRoots
  · intro t ht
    exact (h.snapshots t ht).count

/-- The note tree storage after any run from genesis is consistent, where the hash is
never zero and does not collide on what the run hashes. -/
theorem note_storage_consistent
    (hzero : ∀ bytes, T.blake2_256 bytes ≠ U8Array.zero 32) (ledger : L)
    (xs : List (Extrinsic A T.maxRangeProofSize))
    (hinj : CollisionFree T (history (apply T) (genesis ledger) xs)) :
    NotesConsistent T (run (apply T) (genesis ledger) xs)
      (history (apply T) (genesis ledger) xs) :=
  (storesNotes_run hzero ledger xs hinj).consistent

section Example

/-- A hash that is never zero: a mark, then some bytes of both halves. -/
@[irreducible] def markedHash (bytes : List UInt8) : U8Array 32 :=
  U8Array.padded 32 (1 :: ((bytes.drop 10).take 15 ++ (bytes.drop 32).take 16))

theorem markedHash_ne_zero (bytes : List UInt8) : markedHash bytes ≠ U8Array.zero 32 := by
  intro h
  have hhead := congrArg (fun a => a.toList.head?) h
  rw [markedHash, U8Array.padded] at hhead
  simp [U8Array.zero, List.Vector.toList] at hhead

/-- Three notes of value one. -/
def firstNote : U8Array 32 := encodePoint 0 1 5
def secondNote : U8Array 32 := encodePoint 0 1 6
def thirdNote : U8Array 32 := encodePoint 0 1 7

def noteDeposit (note : U8Array 32) :
    Extrinsic (U8Array 32) (vectorConfig.withHash markedHash).maxRangeProofSize :=
  .signed (U8Array.ofNat 32 2) (.depositPublic note.toList (depositBytes 1) BoundedVec.empty)

/-- A depositor with some balance deposits a new note of value one. -/
theorem noteDeposit_ok {s : State (U8Array 32 → ℕ)} {r : ℕ} (hr : r < 256 ^ 12)
    (hnew : s.commitmentIndex (encodePoint 0 1 r) = none) (hbal : 1 ≤ s.ledger (U8Array.ofNat 32 2))
    (hroom : s.leaves.val.length < 1048576) :
    ∃ s', apply (vectorConfig.withHash markedHash) s (noteDeposit (encodePoint 0 1 r)) = .ok s' ∧
      s'.ledger (U8Array.ofNat 32 2) = s.ledger (U8Array.ofNat 32 2) - 1 ∧
      s'.leaves.val = s.leaves.val ++ [NoteTree.leafHash markedHash (encodePoint 0 1 r)] ∧
      s'.commitmentIndex = insertAt s.commitmentIndex (encodePoint 0 1 r)
        (some (UInt32.ofNat s.leaves.val.length)) := by
  have hpool : U8Array.ofNat 32 2 ≠ vectorConfig.poolAccount := by
    simp only [vectorConfig]
    decide
  obtain ⟨s', hs', hledger, -, hleaves, hindex⟩ := @hashed_depositPublic_ok markedHash
    s (U8Array.ofNat 32 2) 1 r 1 (by norm_num) hr hnew hbal hroom
  refine ⟨s', apply_eq_ok.2 ⟨by simp [noteDeposit], hs'⟩, ?_, hleaves, hindex⟩
  rw [hledger, moveBalance_source hpool]
  rfl

/-- Three deposits succeed, one after the other. -/
theorem noteDeposits_history : ∃ s₁ s₂ : State (U8Array 32 → ℕ),
    s₁.leaves.val = [NoteTree.leafHash markedHash firstNote] ∧
      s₂.leaves.val = [NoteTree.leafHash markedHash firstNote,
        NoteTree.leafHash markedHash secondNote] ∧
      history (apply (vectorConfig.withHash markedHash)) (genesis fun _ => 100)
          [noteDeposit firstNote, noteDeposit secondNote, noteDeposit thirdNote] =
        [(genesis fun _ => 100, noteDeposit firstNote), (s₁, noteDeposit secondNote),
          (s₂, noteDeposit thirdNote)] := by
  have hnotes : secondNote ≠ firstNote ∧ thirdNote ≠ firstNote ∧ thirdNote ≠ secondNote := by
    decide
  obtain ⟨s₁, h₁, hledger₁, hleaves₁, hindex₁⟩ := @noteDeposit_ok (genesis fun _ => 100) 5
    (by norm_num) rfl (by decide) (by decide)
  obtain ⟨s₂, h₂, hledger₂, hleaves₂, hindex₂⟩ := @noteDeposit_ok s₁ 6 (by norm_num)
    (by
      rw [hindex₁, insertAt]
      exact Function.update_of_ne hnotes.1 _ _)
    (by
      rw [hledger₁]
      decide)
    (by
      rw [hleaves₁]
      decide)
  obtain ⟨s₃, h₃, -⟩ := @noteDeposit_ok s₂ 7 (by norm_num)
    (by
      rw [hindex₂, insertAt, hindex₁, insertAt]
      exact (Function.update_of_ne hnotes.2.2 _ _).trans (Function.update_of_ne hnotes.2.1 _ _))
    (by
      rw [hledger₂, hledger₁]
      decide)
    (by
      rw [hleaves₂, hleaves₁]
      decide)
  refine ⟨s₁, s₂, hleaves₁, ?_, ?_⟩
  · rw [hleaves₂, hleaves₁]
    rfl
  · rw [firstNote, secondNote, thirdNote, history_cons_ok h₁, history_cons_ok h₂,
      history_cons_ok h₃, history_nil]

/-- The pairs that the deposits hash. -/
def notePairs : List (U8Array 32 × U8Array 32) :=
  let leaf := NoteTree.leafHash markedHash
  [(firstNote, U8Array.zero 32), (secondNote, U8Array.zero 32), (thirdNote, U8Array.zero 32),
    (leaf firstNote, leaf secondNote), (leaf thirdNote, U8Array.zero 32),
    (NoteTree.hash2 markedHash (leaf firstNote) (leaf secondNote),
      NoteTree.hash2 markedHash (leaf thirdNote) (U8Array.zero 32))]

theorem notePairs_injective : ∀ p ∈ notePairs, ∀ q ∈ notePairs,
    NoteTree.hash2 markedHash p.1 p.2 = NoteTree.hash2 markedHash q.1 q.2 → p = q := by
  unfold notePairs NoteTree.hash2 NoteTree.leafHash markedHash
  decide

theorem noteDeposit_newNotes (note : U8Array 32) :
    (noteDeposit note).call.newNotes = some [note] := by
  have hcopy : copyFromSlice 32 note.toList = some note := copyFromSlice_eq_some.2 rfl
  simp only [noteDeposit, Extrinsic.call, Call.newNotes, hcopy, Option.map_some]

/-- A deposit hashes its note, and the tree over the leaves with the new one. -/
theorem mem_hashedPairs_noteDeposit {s : State (U8Array 32 → ℕ)} {note : U8Array 32}
    {p : U8Array 32 × U8Array 32} :
    p ∈ hashedPairs (vectorConfig.withHash markedHash) [(s, noteDeposit note)] ↔
      p = (note, U8Array.zero 32) ∨ p ∈ NoteTree.treePairs markedHash
        (s.leaves.val ++ [NoteTree.leafHash markedHash note]) := by
  have hleaf : p ∈ NoteTree.leafPairs [note] ↔ p = (note, U8Array.zero 32) := by
    simp [NoteTree.leafPairs, Prod.ext_iff]
  rw [← hleaf]
  constructor
  · rintro ⟨e, he, cs, hcs, hp⟩
    obtain rfl := List.mem_singleton.1 he
    rw [noteDeposit_newNotes] at hcs
    obtain rfl := Option.some.inj hcs
    exact hp
  · intro hp
    exact ⟨_, List.mem_singleton_self _, [note], noteDeposit_newNotes note, hp⟩

theorem hashedPairs_cons (e : State L × Extrinsic A T.maxRangeProofSize)
    (past : List (State L × Extrinsic A T.maxRangeProofSize)) :
    hashedPairs T (e :: past) = hashedPairs T [e] ∪ hashedPairs T past := by
  ext p
  simp [hashedPairs]

theorem treePairs_one {a : U8Array 32} {p : U8Array 32 × U8Array 32} :
    p ∉ NoteTree.treePairs markedHash [a] := by
  simp [NoteTree.treePairs, Merkle.paddedPairs, Merkle.mem_nodePairs_iff, Merkle.height]

theorem treePairs_two {a b : U8Array 32} {p : U8Array 32 × U8Array 32} :
    p ∈ NoteTree.treePairs markedHash [a, b] ↔ p = (a, b) := by
  have hheight : Merkle.height [a, b] = 1 := rfl
  simp [NoteTree.treePairs, Merkle.paddedPairs, Merkle.mem_nodePairs_iff, hheight,
    Merkle.nodePair, Merkle.node, Merkle.padded]

theorem treePairs_three {a b c : U8Array 32} {p : U8Array 32 × U8Array 32} :
    p ∈ NoteTree.treePairs markedHash [a, b, c] ↔ p = (a, b) ∨ p = (c, U8Array.zero 32) ∨
      p = (NoteTree.hash2 markedHash a b, NoteTree.hash2 markedHash c (U8Array.zero 32)) := by
  have hclog : Nat.clog 2 3 = 2 := rfl
  have hheight : Merkle.height [a, b, c] = 2 := hclog
  have hrange : List.range 2 = [0, 1] := rfl
  simp [NoteTree.treePairs, Merkle.paddedPairs, Merkle.mem_nodePairs_iff, hheight, hrange,
    Merkle.nodePair, Merkle.node, Merkle.padded]

theorem noteDeposits_pairs {p : U8Array 32 × U8Array 32} :
    p ∈ hashedPairs (vectorConfig.withHash markedHash)
        (history (apply (vectorConfig.withHash markedHash)) (genesis fun _ => 100)
          [noteDeposit firstNote, noteDeposit secondNote, noteDeposit thirdNote]) ↔
      p ∈ notePairs := by
  obtain ⟨s₁, s₂, hleaves₁, hleaves₂, hhist⟩ := noteDeposits_history
  rw [hhist, hashedPairs_cons, hashedPairs_cons _ [(s₂, _)], Set.mem_union, Set.mem_union,
    mem_hashedPairs_noteDeposit, mem_hashedPairs_noteDeposit, mem_hashedPairs_noteDeposit,
    hleaves₁, hleaves₂]
  have hfirst : (genesis fun _ : U8Array 32 => 100).leaves.val = [] := rfl
  rw [hfirst, List.nil_append, List.cons_append, List.nil_append, List.cons_append,
    List.cons_append, List.nil_append, treePairs_two, treePairs_three]
  simp only [treePairs_one, notePairs, List.mem_cons, List.not_mem_nil, or_false]
  tauto

theorem noteDeposits_collisionFree : CollisionFree (vectorConfig.withHash markedHash)
    (history (apply (vectorConfig.withHash markedHash)) (genesis fun _ => 100)
      [noteDeposit firstNote, noteDeposit secondNote, noteDeposit thirdNote]) := by
  intro p hp q hq heq
  exact notePairs_injective p (noteDeposits_pairs.1 hp) q (noteDeposits_pairs.1 hq) heq

theorem twoDeposits_collisionFree : CollisionFree (vectorConfig.withHash markedHash)
    (history (apply (vectorConfig.withHash markedHash)) (genesis fun _ => 100)
      [noteDeposit firstNote, noteDeposit secondNote]) := by
  have hsplit : [noteDeposit firstNote, noteDeposit secondNote, noteDeposit thirdNote] =
      [noteDeposit firstNote, noteDeposit secondNote] ++ [noteDeposit thirdNote] := rfl
  have hfree := noteDeposits_collisionFree
  rw [hsplit, history_append] at hfree
  exact hfree.mono (hashedPairs_append _)

/-- The storage after two deposits under the marked hash. -/
theorem two_deposits_consistent :
    NotesConsistent (vectorConfig.withHash markedHash)
      (run (apply (vectorConfig.withHash markedHash)) (genesis fun _ => 100)
        [noteDeposit firstNote, noteDeposit secondNote])
      (history (apply (vectorConfig.withHash markedHash)) (genesis fun _ => 100)
        [noteDeposit firstNote, noteDeposit secondNote]) :=
  note_storage_consistent markedHash_ne_zero _ _ twoDeposits_collisionFree

end Example

end NullaRelay.ScanProof
