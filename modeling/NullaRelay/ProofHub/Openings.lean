import NullaRelay.ProofHub.LeafTree

/-!
# What the v2 proofs show

A deposit and a spend of the v2 lane each carry a proof for a statement. An extractor
names what an accepted proof knows: the note of a leaf, and of a spend the note, its
place in the tree under the root and the change note. Where the hashes do not collide,
the place of a spent note under an accepted root holds a leaf of the tree.
-/

namespace NullaRelay.ProofHub

open NullaRelay.Frame V2 Transition Merkle

variable {A L : Type} {T : Config A L} {s s' : State L} {H : Hashes}

/-- A note of the v2 lane. -/
structure Note where
  value : UInt64
  blinding : Pair
  pkd : Pair

variable (H) in
/-- The field elements of the note's leaf. -/
def Note.hash (n : Note) : Pair := H.note n.value n.blinding n.pkd

/-- What the proof of a spend is about. -/
structure SpendStatement where
  proof : List UInt8
  root : U8Array 32
  nullifier : U8Array 32
  pkd : U8Array 32
  priceOrAmount : UInt64
  changeLeaf : U8Array 32
  changePkd : U8Array 32
  purchase : Bool

/-- A call of the v2 lane, down to what its proof is about. -/
inductive V2Step
  | deposit (proof : List UInt8) (amount : UInt64) (leaf : U8Array 32)
  | spend (st : SpendStatement)

namespace V2Step

def accepted (V : ProofVerify) : V2Step → Bool
  | .deposit proof amount leaf => V.verifyDepositV2 proof amount leaf
  | .spend st => V.verifySpendV2 st.proof st.root st.nullifier st.pkd st.priceOrAmount
      st.changeLeaf st.changePkd st.purchase

/-- The leaf that the call inserts. -/
def leaf : V2Step → Option (U8Array 32)
  | .deposit _ _ leaf => some leaf
  | .spend st => if st.purchase then some st.changeLeaf else none

end V2Step

variable (T) in
def SpendPublicV2.statement (i : SpendPublicV2) (auth proof : List UInt8) (price : UInt64) :
    SpendStatement where
  proof
  root := i.merkleRoot
  nullifier := i.nullifier
  pkd := pkDigest T.blake3 (auth.take 1312)
  priceOrAmount := price
  changeLeaf := i.changeLeaf
  changePkd := i.changePkd
  purchase := true

variable (T) in
def WithdrawPublicV2.statement (i : WithdrawPublicV2) (auth proof : List UInt8) :
    SpendStatement where
  proof
  root := i.merkleRoot
  nullifier := i.nullifier
  pkd := pkDigest T.blake3 (auth.take 1312)
  priceOrAmount := i.amount
  changeLeaf := T.proofVerifier.v2ZeroChangeLeaf
  changePkd := U8Array.zero 32
  purchase := false

variable (T) in
/-- The step of the v2 lane that a call makes, at the prices of the state. -/
def Call.v2Step (s : State L) : Call → Option V2Step
  | .depositV2 leaf amount proof _ => some (.deposit proof.val amount leaf)
  | .purchaseRwaV2 auth pi proof => (SpendPublicV2.decode pi).map fun i =>
      .spend (i.statement T auth proof (s.rwaPrices i.rwaId))
  | .purchaseAccessV2 auth pi proof => (SpendPublicV2.decode pi).bind fun i =>
      (s.accessKeyConfigs i.rwaId).map fun cfg => .spend (i.statement T auth proof cfg.price)
  | .withdrawV2 auth pi proof => (WithdrawPublicV2.decode pi).map fun i =>
      .spend (i.statement T auth proof)
  | _ => none

/-- What an accepted spend has checked outside its proof. -/
structure SpendChecked (s : State L) (f : Footprint) (st : SpendStatement) : Prop where
  fresh : s.nullifierUsed st.nullifier = false
  anchored : s.V2RootAnchored st.root
  marked : f.nullifier = some st.nullifier

/-- The step of an accepted call: its proof is accepted, its leaf is the one inserted,
and a spend has a fresh nullifier and an accepted root. -/
theorem v2Step_spec {x : Extrinsic A} (h : apply T s x = .ok s') {step : V2Step}
    (hstep : x.2.v2Step T s = some step) :
    step.accepted T.proofVerifier = true ∧ (x.2.footprint s).leaf = step.leaf ∧
      ∀ st, step = .spend st → SpendChecked s (x.2.footprint s) st := by
  obtain ⟨o, call⟩ := x
  cases call with
  | depositV2 leaf amount p hints =>
      obtain ⟨_, -, hproof, -⟩ := depositV2_eq_ok.1 h
      obtain rfl := Option.some.inj hstep
      exact ⟨hproof, rfl, fun st hst => by cases hst⟩
  | purchaseRwaV2 auth pi p =>
      obtain ⟨-, inputs, hdec, -, hspend, -⟩ := purchaseRwaV2_eq_ok.1 h
      simp only [Call.v2Step, hdec, Option.map_some, Option.some.injEq] at hstep
      subst hstep
      simp only [Call.footprint, hdec, Option.elim_some]
      refine ⟨hspend.proved, rfl, fun st hst => ?_⟩
      cases hst
      exact ⟨hspend.fresh, hspend.anchored, rfl⟩
  | purchaseAccessV2 auth pi p =>
      obtain ⟨-, inputs, cfg, hdec, hcfg, -, hspend, -⟩ := purchaseAccessV2_eq_ok.1 h
      simp only [Call.v2Step, hdec, hcfg, Option.bind_some, Option.map_some,
        Option.some.injEq] at hstep
      subst hstep
      simp only [Call.footprint, hdec, Option.elim_some]
      refine ⟨hspend.proved, rfl, fun st hst => ?_⟩
      cases hst
      exact ⟨hspend.fresh, hspend.anchored, rfl⟩
  | withdrawV2 auth pi p =>
      obtain ⟨-, inputs, hdec, hspend, -⟩ := withdrawV2_eq_ok.1 h
      simp only [Call.v2Step, hdec, Option.map_some, Option.some.injEq] at hstep
      subst hstep
      simp only [Call.footprint, hdec, Option.elim_some]
      refine ⟨hspend.proved, rfl, fun st hst => ?_⟩
      cases hst
      exact ⟨hspend.fresh, hspend.anchored, rfl⟩
  | _ => cases hstep

/-- Only the v2 lane inserts leaves. -/
theorem leaf_eq_none_of_v2Step {x : Extrinsic A} (h : apply T s x = .ok s')
    (hstep : x.2.v2Step T s = none) : (x.2.footprint s).leaf = none := by
  obtain ⟨o, call⟩ := x
  cases call with
  | depositV2 leaf amount p hints => cases hstep
  | purchaseRwaV2 auth pi p =>
      obtain ⟨-, inputs, hdec, -⟩ := purchaseRwaV2_eq_ok.1 h
      simp [Call.v2Step, hdec] at hstep
  | purchaseAccessV2 auth pi p =>
      obtain ⟨-, inputs, cfg, hdec, hcfg, -⟩ := purchaseAccessV2_eq_ok.1 h
      simp [Call.v2Step, hdec, hcfg] at hstep
  | withdrawV2 auth pi p =>
      obtain ⟨-, inputs, hdec, -⟩ := withdrawV2_eq_ok.1 h
      simp [Call.v2Step, hdec] at hstep
  | purchaseRwa p pi | purchaseAccess p pi =>
      cases hdec : RwaPurchaseInputs.decode pi <;>
        simp [Call.footprint, hdec, RwaPurchaseInputs.footprint,
          RwaPurchaseInputs.accessFootprint]
  | withdrawPrivate p pi =>
      cases hdec : WithdrawInputs.decode pi <;> simp [Call.footprint, hdec]
  | _ => rfl

/-- What the proof of a spend knows. -/
structure Opening where
  note : Note
  index : ℕ
  siblings : List.Vector Pair 20
  change : Note

variable (H) in
/-- The relation of the spend circuit. -/
structure Opening.Opens (o : Opening) (st : SpendStatement) : Prop where
  index_lt : o.index < 2 ^ merkleDepth
  nullifier : st.nullifier = packPair (H.nullifier o.note.blinding)
  path : pathRoot H.merkle o.siblings.toList o.index (o.note.hash H) = unpack st.root
  change : st.purchase = true → unpack st.changeLeaf = o.change.hash H
  value : o.note.value.toNat =
    st.priceOrAmount.toNat + if st.purchase then o.change.value.toNat else 0

/-- An extractor: what accepted proofs know, and that they know it. -/
structure Extractor (H : Hashes) (V : ProofVerify) where
  deposit : List UInt8 → UInt64 → U8Array 32 → Note
  spend : SpendStatement → Opening
  deposit_opens : ∀ proof amount leaf, V.verifyDepositV2 proof amount leaf = true →
    unpack leaf = (deposit proof amount leaf).hash H ∧ (deposit proof amount leaf).value = amount
  spend_opens : ∀ st, (V2Step.spend st).accepted V = true → (spend st).Opens H st

variable (H) in
/-- The pairs that are hashed in the trees over the first leaves. -/
def treePairs (leaves : List (U8Array 32)) : Set (Pair × Pair) :=
  {p | ∃ k d j, d < merkleDepth ∧
    p = nodePair H.merkle (fun i => unpack (leafAt (leaves.take k) i)) d j}

theorem treePairs_append (leaves leaves' : List (U8Array 32)) :
    treePairs H leaves ⊆ treePairs H (leaves ++ leaves') := by
  rintro p ⟨k, d, j, hd, rfl⟩
  have htake : (leaves ++ leaves').take (min k leaves.length) = leaves.take k := by
    rw [List.take_append_of_le_length (min_le_right _ _), List.take_eq_take_iff]
    simp
  exact ⟨min k leaves.length, d, j, hd, by rw [htake]⟩

/-- The hashes are injective on these notes and pairs, and never zero there. -/
structure InjectiveOn (H : Hashes) (notes : Set Note) (pairs : Set (Pair × Pair)) : Prop where
  note_inj : Set.InjOn (Note.hash H) notes
  note_ne : ∀ n ∈ notes, n.hash H ≠ (0, 0)
  merkle_inj : Set.InjOn (fun p => H.merkle p.1 p.2) pairs
  merkle_ne : ∀ p ∈ pairs, H.merkle p.1 p.2 ≠ (0, 0)

theorem InjectiveOn.mono {notes notes' : Set Note} {pairs pairs' : Set (Pair × Pair)}
    (h : InjectiveOn H notes' pairs') (hnotes : notes ⊆ notes') (hpairs : pairs ⊆ pairs') :
    InjectiveOn H notes pairs where
  note_inj := h.note_inj.mono hnotes
  note_ne n hn := h.note_ne n (hnotes hn)
  merkle_inj := h.merkle_inj.mono hpairs
  merkle_ne p hp := h.merkle_ne p (hpairs hp)

/-- An accepted root is zero or the root over the first leaves; a full tree has the
root over none. -/
theorem root_of_anchored {leaves : List (U8Array 32)} (h : KeepsTree (merkleHash2 H) s leaves)
    {root : U8Array 32} (hroot : s.V2RootAnchored root) : root = U8Array.zero 32 ∨
      ∃ k, root = node (merkleHash2 H) (leafAt (leaves.take k)) merkleDepth 0 := by
  rcases h.anchored hroot with hzero | hempty | ⟨k, -, -, hk⟩
  · exact .inl hzero
  · refine .inr ⟨0, hempty.trans (node_of_zero fun i _ => ?_).symm⟩
    rw [List.take_zero]
    rfl
  · exact .inr ⟨k, hk⟩

/-- A path from a note to an accepted root starts at a leaf of the tree. -/
theorem leaf_of_path {leaves : List (U8Array 32)} (h : KeepsTree (merkleHash2 H) s leaves)
    {root : U8Array 32} (hroot : s.V2RootAnchored root) {o : Opening} {notes : Set Note}
    {pairs : Set (Pair × Pair)} (hcoll : InjectiveOn H notes pairs) (hnote : o.note ∈ notes)
    (htree : treePairs H leaves ⊆ pairs)
    (hpath : ∀ p ∈ pathPairs H.merkle o.siblings.toList o.index (o.note.hash H), p ∈ pairs)
    (hindex : o.index < 2 ^ merkleDepth)
    (heq : pathRoot H.merkle o.siblings.toList o.index (o.note.hash H) = unpack root) :
    ∃ leaf, leaves[o.index]? = some leaf ∧ unpack leaf = o.note.hash H := by
  have hlen : o.siblings.toList.length = merkleDepth := o.siblings.toList_length
  rcases root_of_anchored h hroot with rfl | ⟨k, rfl⟩
  · obtain ⟨p, hp, hlast⟩ := pathRoot_eq_hash (h := H.merkle) (i := o.index) (x := o.note.hash H)
      (List.ne_nil_of_length_pos (by rw [hlen]; decide))
    rw [hlast, unpack_zero] at heq
    exact absurd heq (hcoll.merkle_ne p (hpath p hp))
  · rw [map_node (unpack_merkleHash2 H), ← hlen] at heq
    have hleaf := eq_leaf_of_pathRoot (by rw [hlen]; exact hindex) (fun p hp d j hd _ hpq =>
      hcoll.merkle_inj (hpath p hp) (htree ⟨k, d, j, hlen ▸ hd, rfl⟩) hpq) heq
    have hlt : o.index < (leaves.take k).length := by
      by_contra hge
      rw [leafAt_of_le (Nat.not_lt.1 hge), unpack_zero] at hleaf
      exact hcoll.note_ne _ hnote hleaf
    refine ⟨(leaves.take k)[o.index], ?_, ?_⟩
    · rw [List.getElem_take]
      exact List.getElem?_eq_getElem _
    · rw [hleaf, leafAt, List.getD_eq_getElem _ _ hlt]

end NullaRelay.ProofHub
