import NullaRelay.ProofHub.Lanes
import NullaRelay.ProofHub.SpendTags

/-!
# The leaves of the v1 notes

The notes that a call registers join a plain vector, which is turned back into a
bounded one when the tree is committed. A vector that outgrew the bound is
replaced by the empty one: the leaves are kept exactly as long as the notes of a
call fit.
-/

namespace NullaRelay.ProofHub

open NullaRelay.Frame

variable {A L : Type} {T : Config A L} {s s' : State L} {x : Extrinsic A}

/-- The storage of the v1 note tree. -/
structure LeafStore where
  commitmentIndex : U8Array 32 → Option UInt32
  leaves : List (U8Array 32)
  currentRoot : U8Array 32
  rootLeafCount : U8Array 32 → UInt32

def State.leafStore (s : State L) : LeafStore where
  commitmentIndex := s.commitmentIndex
  leaves := s.leaves.val
  currentRoot := s.currentRoot
  rootLeafCount := s.rootLeafCount

/-- A vector of leaves as it is stored. -/
def storedLeaves (leaves : List (U8Array 32)) : List (U8Array 32) :=
  if leaves.length ≤ 1048576 then leaves else []

/-- The storage after the commitments joined a vector of leaves and the tree was
committed. -/
def LeafStore.append (T : Config A L) (f : LeafStore) (leaves cs : List (U8Array 32)) :
    LeafStore :=
  let leaves' := leaves ++ cs.map (NoteTree.leafHash T.blake2_256)
  let root := NoteTree.computeMerkleRoot T.blake2_256 leaves'
  { commitmentIndex := NoteTree.indexAll f.commitmentIndex leaves.length cs
    leaves := storedLeaves leaves'
    currentRoot := root
    rootLeafCount := insertAt f.rootLeafCount root (UInt32.ofNat (storedLeaves leaves').length) }

/-- Nothing is committed where no commitment joins. -/
def LeafStore.commit (T : Config A L) (f : LeafStore) (cs : List (U8Array 32)) : LeafStore :=
  if cs = [] then f else f.append T f.leaves cs

theorem LeafStore.append_cons (f : LeafStore) (leaves : List (U8Array 32)) (c : U8Array 32)
    (cs : List (U8Array 32)) :
    f.append T leaves (c :: cs) =
      LeafStore.append T { f with
        commitmentIndex := insertAt f.commitmentIndex c (some (UInt32.ofNat leaves.length)) }
        (leaves ++ [NoteTree.leafHash T.blake2_256 c]) cs := by
  simp [LeafStore.append, NoteTree.indexAll]

@[simp] theorem depositEvent_leafStore (s : State L) (e : Event) :
    (s.depositEvent e).leafStore = s.leafStore := rfl

theorem commitMerkle_leafStore (s : State L) (leaves : List (U8Array 32)) :
    (commitMerkle T s leaves).leafStore = s.leafStore.append T leaves [] := by
  unfold commitMerkle LeafStore.append State.leafStore storedLeaves
  simp only [List.map_nil, List.append_nil]
  split_ifs <;> rfl

theorem insertOrKeep_leafStore (c t : U8Array 32) :
    (insertOrKeep T s c t).leafStore =
      s.leafStore.commit T (if s.commitmentIndex c = none then [c] else []) := by
  cases h : s.commitmentIndex c with
  | none =>
      rw [insertOrKeep_of_none h, commitMerkle_leafStore, if_pos rfl, LeafStore.commit,
        if_neg (List.cons_ne_nil _ _), LeafStore.append_cons]
      rfl
  | some i =>
      rw [insertOrKeep_of_some h, if_neg (by simp)]
      rfl

theorem insertChange_leafStore (inputs : RwaPurchaseInputs) (changeRp : U8Array 32) :
    (insertChange T s inputs changeRp).leafStore =
      s.leafStore.commit T ((registeredChange s inputs).toList.map Prod.fst) := by
  unfold insertChange registeredChange
  cases inputs.changeCommitment with
  | none => rfl
  | some c =>
      cases inputs.changeSpendTag with
      | none => rfl
      | some t =>
          have hstore := insertOrKeep_leafStore (T := T) (s := { s with
            spendTagChangeRpCommitments :=
              insertAt s.spendTagChangeRpCommitments t (some changeRp) }) c t
          refine hstore.trans ?_
          simp only
          split_ifs <;> rfl

theorem payFromPool_leafStore {account : List UInt8} {amount : UInt64}
    (h : payFromPool T s account amount = .ok s') : s'.leafStore = s.leafStore := by
  obtain ⟨_, _, _, _, rfl⟩ := payFromPool_eq_ok.1 h
  rfl

theorem insertRelistChange_leafStore (change : Option (U8Array 32 × U8Array 32))
    (leaves : List (U8Array 32)) :
    (insertRelistChange T s change leaves).leafStore =
      s.leafStore.append T leaves ((registeredRelistChange s change).toList.map Prod.fst) := by
  unfold insertRelistChange registeredRelistChange
  cases change with
  | none => exact commitMerkle_leafStore s leaves
  | some note =>
      obtain ⟨c, t⟩ := note
      cases hc : s.commitmentIndex c with
      | none =>
          have hins := (@doInsertNote_eq_some _ _ T s _ c t leaves _).2 ⟨hc, rfl, rfl⟩
          have hfilter : ((some (c, t)).filter fun note =>
              (s.commitmentIndex note.1).isNone) = some (c, t) := by simp [Option.filter, hc]
          simp only [hins, hfilter, depositEvent_leafStore, commitMerkle_leafStore,
            Option.toList_some, List.map_cons, List.map_nil, LeafStore.append_cons]
          rfl
      | some i =>
          have hins : doInsertNote T s c t leaves = none := by
            rw [doInsertNote, if_pos (by simp [hc])]
          have hfilter : ((some (c, t)).filter fun note =>
              (s.commitmentIndex note.1).isNone) = none := by simp [Option.filter, hc]
          simp only [hins, hfilter, commitMerkle_leafStore, Option.toList_none, List.map_nil]

/-- The payment note of a relist and its change note are committed together. -/
theorem relist_leafStore {inputs : RelistInputs} {s₁ : State L} {leaves : List (U8Array 32)}
    (hins : doInsertNote T (relistConsumed s inputs) inputs.paymentCommitment
      inputs.paymentSpendTag s.leaves.val = some (s₁, leaves)) (cs : List (U8Array 32)) :
    s₁.leafStore.append T leaves cs = s.leafStore.commit T (inputs.paymentCommitment :: cs) := by
  obtain ⟨-, rfl, rfl⟩ := doInsertNote_eq_some.1 hins
  rw [LeafStore.commit, if_neg (List.cons_ne_nil _ _), LeafStore.append_cons]
  rfl

/-- What a call does to the leaves. -/
theorem leafStore_of_apply (h : apply T s x = .ok s') (hv1 : x.2.IsV1) :
    s'.leafStore = s.leafStore.commit T ((x.2.registered s).map Prod.fst) := by
  obtain ⟨o, call⟩ := x
  cases call with
  | purchaseRwa p pi =>
      obtain ⟨-, inputs, rp, hspend, rfl⟩ := purchaseRwa_eq_ok.1 h
      simp only [Call.registered, hspend.decoded]
      exact insertChange_leafStore inputs rp
  | purchaseAccess p pi =>
      obtain ⟨-, inputs, cfg, rp, -, hspend, s₁, hpay, rfl⟩ := purchaseAccess_eq_ok.1 h
      simp only [Call.registered, hspend.decoded]
      exact (payFromPool_leafStore hpay).trans (insertChange_leafStore inputs rp)
  | withdrawPrivate p pi =>
      obtain ⟨-, inputs, -, -, -, -, -, s₁, hpay, rfl⟩ := withdrawPrivate_eq_ok.1 h
      have hpaid := payFromPool_leafStore hpay
      exact hpaid
  | relistPrivate inputs =>
      obtain ⟨-, change, hrelist, s₁, leaves, hins, rfl⟩ := relistPrivate_eq_ok.1 h
      rw [registered_relistPrivate hins hrelist.balanced, List.map_cons, ← relist_leafStore hins]
      exact insertRelistChange_leafStore change leaves
  | _ => exact hv1.elim

/-- What is promised of the storage of the v1 note tree. -/
structure LeafStore.Consistent (T : Config A L) (f : LeafStore) : Prop where
  indexed : NoteTree.Indexed T.blake2_256 f.commitmentIndex f.leaves
  bounded : f.leaves.length ≤ 1048576
  root : f.currentRoot = NoteTree.computeMerkleRoot T.blake2_256 f.leaves
  count : (f.rootLeafCount f.currentRoot).toNat = f.leaves.length

/-- Commitments that fit leave the storage consistent and the leaves in place. -/
theorem LeafStore.Consistent.commit {f : LeafStore} (h : f.Consistent T)
    {cs : List (U8Array 32)} (hfits : f.leaves.length + cs.length ≤ 1048576) :
    (f.commit T cs).Consistent T ∧ f.leaves <+: (f.commit T cs).leaves := by
  by_cases hcs : cs = []
  · subst hcs
    exact ⟨h, List.prefix_rfl⟩
  · have hlen : (f.leaves ++ cs.map (NoteTree.leafHash T.blake2_256)).length ≤ 1048576 := by
      simpa using hfits
    have hstored : storedLeaves (f.leaves ++ cs.map (NoteTree.leafHash T.blake2_256)) =
        f.leaves ++ cs.map (NoteTree.leafHash T.blake2_256) := if_pos hlen
    have hsize : 1048576 < UInt32.size := by decide
    rw [LeafStore.commit, if_neg hcs, LeafStore.append, hstored]
    refine ⟨⟨?_, hlen, rfl, ?_⟩, List.prefix_append _ _⟩
    · exact h.indexed.append cs (hfits.trans (by norm_num))
    · simp only [insertAt, Function.update_self]
      exact UInt32.toNat_ofNat_of_lt' (hlen.trans_lt hsize)

/-- Commitments that do not fit remove all leaves. -/
theorem LeafStore.commit_leaves_of_lt {f : LeafStore} {cs : List (U8Array 32)} (hcs : cs ≠ [])
    (hfull : 1048576 < f.leaves.length + cs.length) : (f.commit T cs).leaves = [] := by
  rw [LeafStore.commit, if_neg hcs]
  exact if_neg (by simpa using hfull)

theorem registered_length_le (s : State L) (call : Call) : (call.registered s).length ≤ 2 := by
  cases call with
  | purchaseRwa p pi => exact Option.length_toList_le.trans (by norm_num)
  | purchaseAccess p pi => exact Option.length_toList_le.trans (by norm_num)
  | relistPrivate inputs => exact Nat.succ_le_succ Option.length_toList_le
  | _ => exact Nat.zero_le 2

/-- A v1 call keeps the tree consistent and the leaves in place exactly when the
notes that it registers fit. -/
theorem leaves_kept_iff_fit (T : Config A L) (hv1 : x.2.IsV1) (h : apply T s x = .ok s')
    (hs : s.leafStore.Consistent T) :
    (s'.leafStore.Consistent T ∧ s.leaves.val <+: s'.leaves.val) ↔
      s.leaves.val.length + (x.2.registered s).length ≤ 1048576 := by
  have hstore := leafStore_of_apply h hv1
  have hleaves : s'.leaves.val = (s.leafStore.commit T ((x.2.registered s).map Prod.fst)).leaves :=
    congrArg LeafStore.leaves hstore
  rw [hstore, hleaves]
  constructor
  · rintro ⟨-, hprefix⟩
    by_contra hfull
    have hregistered := registered_length_le s x.2
    have hcs : (x.2.registered s).map Prod.fst ≠ [] := by
      intro hnil
      have hbound := s.leaves.property
      rw [List.map_eq_nil_iff.1 hnil, List.length_nil] at hfull
      omega
    rw [LeafStore.commit_leaves_of_lt hcs (by simpa [State.leafStore] using hfull)] at hprefix
    have hempty : s.leaves.val.length = 0 := by rw [List.prefix_nil.1 hprefix, List.length_nil]
    omega
  · intro hfits
    exact hs.commit (by simpa [State.leafStore] using hfits)

section Example

/-- The purchase of `redirecting`, which registers its change under the tag one. -/
def redirectingCall : Extrinsic (U8Array 32) :=
  (.none, .purchaseRwa anyAuth redirecting.encode)

theorem redirecting_decode :
    RwaPurchaseInputs.decode redirecting.encode = some redirecting :=
  RwaPurchaseInputs.decode_encode (by decide) (by decide)

/-- The storage of `legacyTags` with an index and some leaves under a root. -/
def legacyTree (index : U8Array 32 → Option UInt32) (leaves : BoundedVec (U8Array 32) 1048576)
    (root : U8Array 32) (count : UInt32) : State (U8Array 32 → ℕ) :=
  { legacyTags with
    commitmentIndex := index
    leaves
    currentRoot := root
    rootLeafCount := fun _ => count }

theorem redirectingCall_succeeds (index : U8Array 32 → Option UInt32)
    (leaves : BoundedVec (U8Array 32) 1048576) (root : U8Array 32) (count : UInt32) :
    ∃ s', apply constantConfig (legacyTree index leaves root count) redirectingCall = .ok s' := by
  have hprice : 0 < (legacyTree index leaves root count).rwaPrices redirecting.rwaId := by
    simp [legacyTree, legacyTags]
  exact ⟨_, @accepting_purchaseRwa (fun _ => U8Array.zero 32) (legacyTree index leaves root count)
    redirecting (U8Array.ofNat 32 1) (U8Array.zero 32) (by decide) (by decide) rfl rfl rfl rfl
    hprice rfl rfl⟩

theorem redirectingCall_isV1 : redirectingCall.2.IsV1 := trivial

theorem redirectingCall_registered (leaves : BoundedVec (U8Array 32) 1048576)
    (root : U8Array 32) (count : UInt32) :
    redirectingCall.2.registered (legacyTree (fun _ => none) leaves root count) =
      [(U8Array.ofNat 32 7, U8Array.ofNat 32 1)] := by
  rw [redirectingCall, Call.registered, redirecting_decode]
  rfl

/-- As many leaves as fit. -/
@[irreducible] def allLeaves : BoundedVec (U8Array 32) 1048576 :=
  ⟨List.replicate 1048576 (U8Array.zero 32), by rw [List.length_replicate]⟩

theorem allLeaves_length : allLeaves.val.length = 1048576 := by
  rw [allLeaves, List.length_replicate]

/-- The full tree, with its root and its count. -/
def fullTree : State (U8Array 32 → ℕ) :=
  legacyTree (fun _ => none) allLeaves
    (NoteTree.computeMerkleRoot constantConfig.blake2_256 allLeaves.val)
    (UInt32.ofNat allLeaves.val.length)

theorem fullTree_length : fullTree.leafStore.leaves.length = 1048576 := allLeaves_length

theorem fullTree_consistent : fullTree.leafStore.Consistent constantConfig where
  indexed c i hi := by cases hi
  bounded := allLeaves.property
  root := rfl
  count := by
    have hsize : allLeaves.val.length < UInt32.size := by
      rw [allLeaves_length]
      decide
    exact UInt32.toNat_ofNat_of_lt' hsize

/-- A purchase with change in the full tree removes all leaves. -/
theorem full_tree_emptied :
    ¬ ∀ (s s' : State (U8Array 32 → ℕ)) (x : Extrinsic (U8Array 32)), x.2.IsV1 →
      apply constantConfig s x = .ok s' → s.leafStore.Consistent constantConfig →
        s'.leafStore.Consistent constantConfig ∧ s.leaves.val <+: s'.leaves.val := by
  intro hclaim
  obtain ⟨s', hs'⟩ : ∃ s', apply constantConfig fullTree redirectingCall = .ok s' :=
    redirectingCall_succeeds _ _ _ _
  have hprefix := (hclaim fullTree s' _ redirectingCall_isV1 hs' fullTree_consistent).2
  have hregistered : redirectingCall.2.registered fullTree =
      [(U8Array.ofNat 32 7, U8Array.ofNat 32 1)] := redirectingCall_registered _ _ _
  have hempty : s'.leaves.val = [] := by
    have hstore := congrArg LeafStore.leaves (leafStore_of_apply hs' redirectingCall_isV1)
    rw [hregistered] at hstore
    refine hstore.trans (LeafStore.commit_leaves_of_lt (List.cons_ne_nil _ _) ?_)
    rw [fullTree_length]
    norm_num
  rw [hempty] at hprefix
  have hlen := fullTree_length
  rw [State.leafStore, List.prefix_nil.1 hprefix] at hlen
  cases hlen

/-- The leaves of the two notes, and their index. -/
def legacyLeaves : BoundedVec (U8Array 32) 1048576 :=
  ⟨[5, 6].map fun n => NoteTree.leafHash constantConfig.blake2_256 (U8Array.ofNat 32 n), by simp⟩

def legacyIndex : U8Array 32 → Option UInt32 :=
  insertAt (insertAt (fun _ => none) (U8Array.ofNat 32 5) (some 0)) (U8Array.ofNat 32 6) (some 1)

/-- The tree of the two notes. -/
def notesTree : State (U8Array 32 → ℕ) :=
  legacyTree legacyIndex legacyLeaves
    (NoteTree.computeMerkleRoot constantConfig.blake2_256 legacyLeaves.val) 2

theorem notesTree_consistent : notesTree.leafStore.Consistent constantConfig where
  indexed c i hi := by
    have hi : legacyIndex c = some i := hi
    simp only [legacyIndex, Function.update_apply] at hi
    split_ifs at hi with hsix hfive
    · obtain rfl := Option.some.inj hi
      rw [hsix]
      rfl
    · obtain rfl := Option.some.inj hi
      rw [hfive]
      rfl
  bounded := legacyLeaves.property
  root := rfl
  count := rfl

/-- The same purchase in the tree of the two notes. -/
theorem two_notes_kept_iff : ∃ s', apply constantConfig notesTree redirectingCall = .ok s' ∧
    ((s'.leafStore.Consistent constantConfig ∧ notesTree.leaves.val <+: s'.leaves.val) ↔
      notesTree.leaves.val.length + (redirectingCall.2.registered notesTree).length ≤
        1048576) := by
  obtain ⟨s', hs'⟩ : ∃ s', apply constantConfig notesTree redirectingCall = .ok s' :=
    redirectingCall_succeeds _ _ _ _
  exact ⟨s', hs', leaves_kept_iff_fit constantConfig redirectingCall_isV1 hs'
    notesTree_consistent⟩

end Example

end NullaRelay.ProofHub
