import NullaRelay.ProofHub.Pallet

/-!
# What the ProofHub calls do

For each call the exact conditions under which it succeeds and the state it
leaves. The insertion of a v1 note touches the note tree, the registry of tags
and the events only; `withoutNotes` blanks these out.
-/

namespace NullaRelay.ProofHub

open NullaRelay.Frame V2

variable {A L : Type} {T : Config A L} {s s' : State L} {o : Origin A}

/-- The state without the v1 notes, their tree and the events. -/
def State.withoutNotes (s : State L) : State L :=
  { s with
    merkleRoot := U8Array.zero 32
    currentRoot := U8Array.zero 32
    recentRoots := BoundedVec.empty
    spendTagCommitments := fun _ => none
    spendTagChangeRpCommitments := fun _ => none
    leaves := BoundedVec.empty
    rootLeafCount := fun _ => 0
    commitmentIndex := fun _ => none
    events := [] }

theorem doInsertNote_eq_some {c t : U8Array 32} {leaves leaves' : List (U8Array 32)} :
    doInsertNote T s c t leaves = some (s', leaves') ↔
      s.commitmentIndex c = none ∧ leaves' = leaves ++ [NoteTree.leafHash T.blake2_256 c] ∧
      s' = { s with
        commitmentIndex := insertAt s.commitmentIndex c (some (UInt32.ofNat leaves.length))
        spendTagCommitments := insertAt s.spendTagCommitments t (some c) } := by
  unfold doInsertNote
  cases hindex : s.commitmentIndex c with
  | none => simp [@eq_comm _ s', @eq_comm _ leaves', and_comm]
  | some idx => simp

theorem insertOrKeep_of_none {c t : U8Array 32} (h : s.commitmentIndex c = none) :
    insertOrKeep T s c t = commitMerkle T { s with
        commitmentIndex := insertAt s.commitmentIndex c (some (UInt32.ofNat s.leaves.val.length))
        spendTagCommitments := insertAt s.spendTagCommitments t (some c) }
      (s.leaves.val ++ [NoteTree.leafHash T.blake2_256 c]) := by
  rw [insertOrKeep, doInsertNote_eq_some.2 ⟨h, rfl, rfl⟩]

theorem insertOrKeep_of_some {c t : U8Array 32} {i : UInt32} (h : s.commitmentIndex c = some i) :
    insertOrKeep T s c t = s := by
  rw [insertOrKeep, doInsertNote, if_pos (by simp [h])]

@[simp] theorem withoutNotes_insertOrKeep (c t : U8Array 32) :
    (insertOrKeep T s c t).withoutNotes = s.withoutNotes := by
  cases h : s.commitmentIndex c with
  | none => rw [insertOrKeep_of_none h]; rfl
  | some i => rw [insertOrKeep_of_some h]

theorem insertOrKeep_spendTagCommitments (c t : U8Array 32) :
    (insertOrKeep T s c t).spendTagCommitments =
      if s.commitmentIndex c = none then insertAt s.spendTagCommitments t (some c)
      else s.spendTagCommitments := by
  cases h : s.commitmentIndex c with
  | none => rw [insertOrKeep_of_none h, if_pos rfl]; rfl
  | some i => rw [insertOrKeep_of_some h, if_neg (by simp)]

/-- The change note that a v1 purchase registers: both fields are there and the
commitment is new. -/
def registeredChange (s : State L) (inputs : RwaPurchaseInputs) :
    Option (U8Array 32 × U8Array 32) :=
  match inputs.changeCommitment, inputs.changeSpendTag with
  | some c, some t => if s.commitmentIndex c = none then some (c, t) else none
  | _, _ => none

/-- The registry of tags after notes are registered one after the other. -/
def registerNotes (registry : U8Array 32 → Option (U8Array 32))
    (notes : List (U8Array 32 × U8Array 32)) : U8Array 32 → Option (U8Array 32) :=
  notes.foldl (fun m note => insertAt m note.2 (some note.1)) registry

/-- The last note under a tag decides, the registry before decides where there
is none. -/
theorem registerNotes_apply (registry : U8Array 32 → Option (U8Array 32))
    (notes : List (U8Array 32 × U8Array 32)) (t : U8Array 32) :
    registerNotes registry notes t = (registerNotes (fun _ => none) notes t).or (registry t) := by
  induction notes using List.reverseRecOn with
  | nil => rfl
  | append_singleton notes note ih =>
      simp only [registerNotes, List.foldl_append, List.foldl_cons, List.foldl_nil] at ih ⊢
      by_cases ht : t = note.2
      · subst ht
        simp
      · simpa [Function.update_of_ne ht] using ih

@[simp] theorem withoutNotes_insertChange (inputs : RwaPurchaseInputs) (changeRp : U8Array 32) :
    (insertChange T s inputs changeRp).withoutNotes = s.withoutNotes := by
  unfold insertChange
  split
  · exact withoutNotes_insertOrKeep (s := { s with spendTagChangeRpCommitments := _ }) _ _
  · rfl

theorem insertChange_spendTagCommitments (inputs : RwaPurchaseInputs) (changeRp : U8Array 32) :
    (insertChange T s inputs changeRp).spendTagCommitments =
      registerNotes s.spendTagCommitments (registeredChange s inputs).toList := by
  unfold insertChange registeredChange
  cases inputs.changeCommitment with
  | none => rfl
  | some c =>
      cases inputs.changeSpendTag with
      | none => rfl
      | some t =>
          simp only [State.depositEvent, insertOrKeep_spendTagCommitments]
          split_ifs <;> rfl

/-- The change note of a relist, as far as it is registered. -/
def registeredRelistChange (s : State L) (change : Option (U8Array 32 × U8Array 32)) :
    Option (U8Array 32 × U8Array 32) :=
  change.filter fun note => (s.commitmentIndex note.1).isNone

theorem insertRelistChange_spendTagCommitments (change : Option (U8Array 32 × U8Array 32))
    (leaves : List (U8Array 32)) :
    (insertRelistChange T s change leaves).spendTagCommitments =
      registerNotes s.spendTagCommitments (registeredRelistChange s change).toList := by
  unfold insertRelistChange registeredRelistChange
  cases change with
  | none => rfl
  | some note =>
      obtain ⟨c, t⟩ := note
      cases h : s.commitmentIndex c with
      | none =>
          simp [doInsertNote, h, registerNotes, Option.filter, State.depositEvent, commitMerkle]
      | some i => simp [doInsertNote, h, registerNotes, Option.filter, commitMerkle]

@[simp] theorem withoutNotes_insertRelistChange (change : Option (U8Array 32 × U8Array 32))
    (leaves : List (U8Array 32)) :
    (insertRelistChange T s change leaves).withoutNotes = s.withoutNotes := by
  unfold insertRelistChange
  cases change with
  | none => rfl
  | some note =>
      obtain ⟨c, t⟩ := note
      cases h : s.commitmentIndex c with
      | none => simp [doInsertNote, h]; rfl
      | some i => simp [doInsertNote, h]; rfl

theorem checkNote_eq_ok {inputs : RwaPurchaseInputs} {u : Unit} :
    checkNote s inputs = .ok u ↔ s.nullifierUsed inputs.nullifier = false ∧
      (s.spendTagCommitments inputs.spendTag).isSome ∧ s.spendTagUsed inputs.spendTag = false := by
  simp [checkNote]

theorem spendTagged_eq_ok {proof pi : List UInt8} {inputs : RwaPurchaseInputs} {price : UInt64}
    {r : State L × U8Array 32} :
    spendTagged T s proof pi inputs price = .ok r ↔
      changeRpCommitment s inputs = .ok r.2 ∧
      (∃ storedRp, s.spendTagRpCommitments inputs.spendTag = some storedRp ∧
        T.proofVerifier.verifyPurchaseProof inputs.purchaseProof storedRp r.2 price = true) ∧
      T.proofVerifier.verifyPurchase proof pi = true ∧
      r.1 = { s with
        nullifierUsed := insertAt s.nullifierUsed inputs.nullifier true
        spendTagUsed := insertAt s.spendTagUsed inputs.spendTag true } := by
  obtain ⟨s', rp⟩ := r
  simp only [spendTagged, bind_eq_ok, okOr_eq_ok, ensure_eq_ok, pure_eq_ok, Prod.mk.injEq,
    exists_const]
  constructor
  · rintro ⟨rp, hrp, storedRp, hstored, hproof, hsig, rfl, rfl⟩
    exact ⟨hrp, ⟨storedRp, hstored, hproof⟩, hsig, rfl⟩
  · rintro ⟨hrp, ⟨storedRp, hstored, hproof⟩, hsig, rfl⟩
    exact ⟨rp, hrp, storedRp, hstored, hproof, hsig, rfl, rfl⟩

theorem payFromPool_eq_ok {account : List UInt8} {amount : UInt64} :
    payFromPool T s account amount = .ok s' ↔ ∃ dest, T.decodeAccount account = some dest ∧
      ∃ ledger, T.currency.transfer s.ledger T.poolAccount dest amount.toNat .allowDeath =
        some ledger ∧ s' = { s with ledger } := by
  simp [payFromPool, @eq_comm _ s']

/-- The state of a v1 purchase of an RWA once its note is spent. -/
def rwaPurchased (T : Config A L) (s : State L) (inputs : RwaPurchaseInputs)
    (changeRp : U8Array 32) : State L :=
  insertChange T { s with
    nullifierUsed := insertAt s.nullifierUsed inputs.nullifier true
    spendTagUsed := insertAt s.spendTagUsed inputs.spendTag true
    ownershipCommitments :=
      insertAt s.ownershipCommitments inputs.txId (some inputs.ownershipCommitment) }
    inputs changeRp

theorem withoutNotes_rwaPurchased (inputs : RwaPurchaseInputs) (changeRp : U8Array 32) :
    (rwaPurchased T s inputs changeRp).withoutNotes = State.withoutNotes { s with
      nullifierUsed := insertAt s.nullifierUsed inputs.nullifier true
      spendTagUsed := insertAt s.spendTagUsed inputs.spendTag true
      ownershipCommitments :=
        insertAt s.ownershipCommitments inputs.txId (some inputs.ownershipCommitment) } :=
  withoutNotes_insertChange inputs changeRp

/-- What the two v1 purchases check, at a price. -/
structure TagSpendable (T : Config A L) (s : State L) (proof pi : List UInt8)
    (inputs : RwaPurchaseInputs) (price : UInt64) (changeRp : U8Array 32) : Prop where
  decoded : RwaPurchaseInputs.decode pi = some inputs
  fresh : s.nullifierUsed inputs.nullifier = false
  registered : (s.spendTagCommitments inputs.spendTag).isSome
  unused : s.spendTagUsed inputs.spendTag = false
  priced : 0 < price
  resolved : changeRpCommitment s inputs = .ok changeRp
  proved : ∃ storedRp, s.spendTagRpCommitments inputs.spendTag = some storedRp ∧
    T.proofVerifier.verifyPurchaseProof inputs.purchaseProof storedRp changeRp price = true
  signed : T.proofVerifier.verifyPurchase proof pi = true

theorem purchaseRwa_eq_ok {proof pi : List UInt8} :
    purchaseRwa T s o proof pi = .ok s' ↔ o = .none ∧ ∃ inputs changeRp,
      TagSpendable T s proof pi inputs (s.rwaPrices inputs.rwaId) changeRp ∧
      s' = ((rwaPurchased T s inputs changeRp).depositEvent
          (.rwaPurchaseAuthorized inputs.rwaId inputs.txId)).send
        (.rwaPurchase inputs.rwaId inputs.nullifier inputs.spendTag (s.rwaPrices inputs.rwaId)
          inputs.txId inputs.ownershipCommitment) := by
  simp only [purchaseRwa, bind_eq_ok, okOr_eq_ok, ensure_eq_ok, ensureNone_eq_ok, pure_eq_ok,
    exists_const, Prod.exists, spendTagged_eq_ok, checkNote_eq_ok]
  constructor
  · rintro ⟨ho, inputs, hdec, ⟨hfresh, hreg, hunused⟩, hprice, _, rp,
      ⟨hrp, hproof, hsig, rfl⟩, rfl⟩
    exact ⟨ho, inputs, rp, ⟨hdec, hfresh, hreg, hunused, hprice, hrp, hproof, hsig⟩, rfl⟩
  · rintro ⟨ho, inputs, rp, h, rfl⟩
    exact ⟨ho, inputs, h.decoded, ⟨h.fresh, h.registered, h.unused⟩, h.priced, _, rp,
      ⟨h.resolved, h.proved, h.signed, rfl⟩, rfl⟩

/-- The state of a v1 purchase of access once its note is spent. -/
def accessPurchased (T : Config A L) (s : State L) (inputs : RwaPurchaseInputs)
    (changeRp : U8Array 32) : State L :=
  insertChange T { s with
    nullifierUsed := insertAt s.nullifierUsed inputs.nullifier true
    spendTagUsed := insertAt s.spendTagUsed inputs.spendTag true } inputs changeRp

theorem withoutNotes_accessPurchased (inputs : RwaPurchaseInputs) (changeRp : U8Array 32) :
    (accessPurchased T s inputs changeRp).withoutNotes = State.withoutNotes { s with
      nullifierUsed := insertAt s.nullifierUsed inputs.nullifier true
      spendTagUsed := insertAt s.spendTagUsed inputs.spendTag true } :=
  withoutNotes_insertChange inputs changeRp

theorem appConfig_eq_ok {appId : U8Array 32} {cfg : AppConfig} :
    appConfig s appId = .ok cfg ↔ s.accessKeyConfigs appId = some cfg ∧ 0 < cfg.price := by
  simp only [appConfig, bind_eq_ok, okOr_eq_ok, ensure_eq_ok, pure_eq_ok, exists_const]
  constructor
  · rintro ⟨_, hcfg, hprice, rfl⟩
    exact ⟨hcfg, hprice⟩
  · rintro ⟨hcfg, hprice⟩
    exact ⟨cfg, hcfg, hprice, rfl⟩

theorem purchaseAccess_eq_ok {proof pi : List UInt8} :
    purchaseAccess T s o proof pi = .ok s' ↔ o = .none ∧ ∃ inputs cfg changeRp,
      s.accessKeyConfigs inputs.rwaId = some cfg ∧
      TagSpendable T s proof pi inputs cfg.price changeRp ∧ ∃ s₁,
      payFromPool T (accessPurchased T s inputs changeRp) cfg.paymentAccount.toList cfg.price =
        .ok s₁ ∧
      s' = (s₁.depositEvent (.accessPurchaseAuthorized inputs.rwaId inputs.txId)).send
        (.accessKey inputs.rwaId inputs.nullifier inputs.txId inputs.ownershipCommitment) := by
  simp only [purchaseAccess, bind_eq_ok, okOr_eq_ok, ensureNone_eq_ok, pure_eq_ok,
    exists_const, Prod.exists, spendTagged_eq_ok, checkNote_eq_ok, appConfig_eq_ok]
  constructor
  · rintro ⟨ho, inputs, hdec, ⟨hfresh, hreg, hunused⟩, cfg, ⟨hcfg, hprice⟩, _, rp,
      ⟨hrp, hproof, hsig, rfl⟩, s₁, hpay, rfl⟩
    exact ⟨ho, inputs, cfg, rp, hcfg, ⟨hdec, hfresh, hreg, hunused, hprice, hrp, hproof, hsig⟩, s₁,
      hpay, rfl⟩
  · rintro ⟨ho, inputs, cfg, rp, hcfg, h, s₁, hpay, rfl⟩
    exact ⟨ho, inputs, h.decoded, ⟨h.fresh, h.registered, h.unused⟩, cfg, ⟨hcfg, h.priced⟩, _, rp,
      ⟨h.resolved, h.proved, h.signed, rfl⟩, s₁, hpay, rfl⟩

theorem withdrawPrivate_eq_ok {proof pi : List UInt8} :
    withdrawPrivate T s o proof pi = .ok s' ↔ o = .none ∧ ∃ inputs,
      WithdrawInputs.decode pi = some inputs ∧
      s.spendTagUsed inputs.spendTag = false ∧
      T.proofVerifier.verifyWithdrawal proof pi = true ∧
      (∃ stored, s.spendTagCommitments inputs.spendTag = some stored ∧
        T.proofVerifier.verifyCommitment inputs.noteValue inputs.noteBlinding stored = true) ∧
      inputs.destination.length = 32 ∧ ∃ s₁,
      payFromPool T { s with spendTagUsed := insertAt s.spendTagUsed inputs.spendTag true }
        inputs.destination inputs.noteValue = .ok s₁ ∧
      s' = s₁.depositEvent (.withdrawCompleted inputs.spendTag inputs.txId) := by
  simp only [withdrawPrivate, bind_eq_ok, okOr_eq_ok, ensure_eq_ok, ensureNone_eq_ok, pure_eq_ok,
    exists_const]
  constructor
  · rintro ⟨ho, inputs, hdec, -, hunused, hsig, stored, hstored, hopen, hlen, s₁, hpay, rfl⟩
    exact ⟨ho, inputs, hdec, hunused, hsig, ⟨stored, hstored, hopen⟩, hlen, s₁, hpay, rfl⟩
  · rintro ⟨ho, inputs, hdec, hunused, hsig, ⟨stored, hstored, hopen⟩, hlen, s₁, hpay, rfl⟩
    exact ⟨ho, inputs, hdec, by simp [hstored], hunused, hsig, stored, hstored, hopen, hlen, s₁,
      hpay, rfl⟩

/-- What a relist checks; `change` is the change output that it inserts. -/
structure Relistable (T : Config A L) (s : State L) (inputs : RelistInputs)
    (change : Option (U8Array 32 × U8Array 32)) : Prop where
  owned : s.ownershipCommitments inputs.oldTxId =
    some (computeOwnershipCommitment T inputs.rwaId inputs.ownershipBlinding)
  unsold : s.ownershipUsed inputs.oldTxId = false
  unused : s.spendTagUsed inputs.newBuyerSpendTag = false
  opened : ∃ stored, s.spendTagCommitments inputs.newBuyerSpendTag = some stored ∧
    T.proofVerifier.verifyCommitment inputs.buyerValue inputs.buyerBlinding stored = true
  covered : inputs.price ≤ inputs.buyerValue
  balanced : checkRelistChange T inputs = .ok change
  paid : T.proofVerifier.verifyCommitment inputs.price inputs.paymentBlinding
    inputs.paymentCommitment = true

/-- The state of a relist once the record and the buyer's note are consumed. -/
def relistConsumed (s : State L) (inputs : RelistInputs) : State L :=
  { s with
    ownershipUsed := insertAt s.ownershipUsed inputs.oldTxId true
    spendTagUsed := insertAt s.spendTagUsed inputs.newBuyerSpendTag true }

/-- The new ownership record with the events and the message of a relist. -/
def relistRecorded (s : State L) (inputs : RelistInputs) : State L :=
  let s := { s with
    ownershipCommitments :=
      insertAt s.ownershipCommitments inputs.newTxId (some inputs.newOwnershipCommitment) }
  let s := s.depositEvent (.paymentNoteCreated inputs.paymentCommitment inputs.paymentSpendTag
    s.currentRoot)
  let s := s.depositEvent (.relistInitiated inputs.oldTxId inputs.newTxId inputs.rwaId)
  s.send (.rwaTransfer inputs.oldTxId inputs.newOwnershipCommitment inputs.newTxId)

theorem relistPrivate_eq_ok {inputs : RelistInputs} :
    relistPrivate T s o inputs = .ok s' ↔ o = .none ∧ ∃ change, Relistable T s inputs change ∧
      ∃ s₁ leaves, doInsertNote T (relistConsumed s inputs) inputs.paymentCommitment
        inputs.paymentSpendTag s.leaves.val = some (s₁, leaves) ∧
      s' = relistRecorded (insertRelistChange T s₁ change leaves) inputs := by
  simp only [relistPrivate, bind_eq_ok, okOr_eq_ok, ensure_eq_ok, ensureNone_eq_ok, pure_eq_ok,
    exists_const, Prod.exists]
  constructor
  · rintro ⟨ho, _, hoc, hunsold, rfl, -, hunused, stored, hstored, hopen, hcov, change, hchange,
      hpaid, s₁, leaves, hins, rfl⟩
    exact ⟨ho, change, ⟨hoc, hunsold, hunused, ⟨stored, hstored, hopen⟩, hcov, hchange, hpaid⟩, s₁,
      leaves, hins, rfl⟩
  · rintro ⟨ho, change, h, s₁, leaves, hins, rfl⟩
    obtain ⟨stored, hstored, hopen⟩ := h.opened
    exact ⟨ho, _, h.owned, h.unsold, rfl, by simp [hstored], h.unused, stored, hstored, hopen,
      h.covered, change, h.balanced, h.paid, s₁, leaves, hins, rfl⟩

theorem v2Insert_eq_ok {leaf : U8Array 32} :
    v2Insert T s leaf = .ok s' ↔ s.leafIndexV2 leaf = none ∧ ∃ frontier newRoot,
      T.proofVerifier.v2InsertLeaf s.frontierV2 leaf = some (frontier, newRoot) ∧
      s' = { s with
        frontierV2 := frontier
        leafIndexV2 := insertAt s.leafIndexV2 leaf (some s.frontierV2.leafCount)
        currentRootV2 := newRoot
        recentRootsV2 := if 0 < s.frontierV2.leafCount then
          NoteTree.pushRoot s.recentRootsV2 s.currentRootV2 else s.recentRootsV2 } := by
  simp [v2Insert, @eq_comm _ s']

/-- What the v2 spends check. -/
structure Spendable (T : Config A L) (s : State L) (auth pi spendProof : List UInt8)
    (merkleRoot nullifier : U8Array 32) (priceOrAmount : UInt64)
    (changeLeaf changePkd : U8Array 32) (withdraw : Bool) : Prop where
  fresh : s.nullifierUsed nullifier = false
  anchored : s.V2RootAnchored merkleRoot
  signed : T.proofVerifier.verifySpendAuthV2 auth pi withdraw = true
  length : 1312 ≤ auth.length
  proved : T.proofVerifier.verifySpendV2 spendProof merkleRoot nullifier
    (pkDigest T.blake3 (auth.take 1312)) priceOrAmount changeLeaf changePkd (!withdraw) = true

/-- The state with the nullifier marked. -/
def markNullifier (s : State L) (nullifier : U8Array 32) : State L :=
  { s with nullifierUsed := insertAt s.nullifierUsed nullifier true }

theorem spendV2_eq_ok {auth pi spendProof : List UInt8} {root nf : U8Array 32} {x : UInt64}
    {cl cp : U8Array 32} {withdraw : Bool} :
    spendV2 T s auth pi spendProof root nf x cl cp withdraw = .ok s' ↔
      T.proofVerifier.verifySpendAuthV2 auth pi withdraw = true ∧ 1312 ≤ auth.length ∧
      T.proofVerifier.verifySpendV2 spendProof root nf (pkDigest T.blake3 (auth.take 1312)) x cl cp
        (!withdraw) = true ∧ s' = markNullifier s nf := by
  simp [spendV2, markNullifier, @eq_comm _ s']

theorem checkNullifier_eq_ok {nf root : U8Array 32} {u : Unit} :
    checkNullifier s nf root = .ok u ↔ s.nullifierUsed nf = false ∧ s.V2RootAnchored root := by
  simp [checkNullifier]

theorem depositV2_eq_ok {leaf : U8Array 32} {amount : UInt64} {p : BoundedVec UInt8 65536}
    {hints : BoundedVec UInt8 4096} :
    depositV2 T s o leaf amount p hints = .ok s' ↔ ∃ who, o = .signed who ∧
      T.proofVerifier.verifyDepositV2 p.val amount leaf = true ∧ ∃ ledger,
      T.currency.transfer s.ledger who T.poolAccount amount.toNat .keepAlive = some ledger ∧
      ∃ s₁, v2Insert T { s with ledger } leaf = .ok s₁ ∧
      s' = s₁.depositEvent (.depositV2Accepted leaf s.frontierV2.leafCount s₁.currentRootV2
        hints) := by
  simp [depositV2, @eq_comm _ s']

theorem purchaseRwaV2_eq_ok {auth pi p : List UInt8} :
    purchaseRwaV2 T s o auth pi p = .ok s' ↔ o = .none ∧ ∃ inputs,
      SpendPublicV2.decode pi = some inputs ∧ 0 < s.rwaPrices inputs.rwaId ∧
      Spendable T s auth pi p inputs.merkleRoot inputs.nullifier (s.rwaPrices inputs.rwaId)
        inputs.changeLeaf inputs.changePkd false ∧ ∃ s₁,
      v2Insert T (markNullifier s inputs.nullifier) inputs.changeLeaf = .ok s₁ ∧
      s' = (State.depositEvent { s₁ with
          ownershipCommitments :=
            insertAt s₁.ownershipCommitments inputs.txId (some inputs.ownershipCommitment) }
          (.purchaseV2Authorized inputs.rwaId inputs.txId inputs.changeLeaf s.frontierV2.leafCount
            s₁.currentRootV2)).send
        (.rwaPurchase inputs.rwaId inputs.nullifier inputs.nullifier (s.rwaPrices inputs.rwaId)
          inputs.txId inputs.ownershipCommitment) := by
  simp only [purchaseRwaV2, bind_eq_ok, okOr_eq_ok, ensure_eq_ok, ensureNone_eq_ok, pure_eq_ok,
    exists_const, spendV2_eq_ok, checkNullifier_eq_ok]
  constructor
  · rintro ⟨ho, inputs, hdec, ⟨hfresh, hanch⟩, hprice, _, ⟨hsig, hlen, hproof, rfl⟩, s₁, hins, rfl⟩
    exact ⟨ho, inputs, hdec, hprice, ⟨hfresh, hanch, hsig, hlen, hproof⟩, s₁, hins, rfl⟩
  · rintro ⟨ho, inputs, hdec, hprice, h, s₁, hins, rfl⟩
    exact ⟨ho, inputs, hdec, ⟨h.fresh, h.anchored⟩, hprice, _,
      ⟨h.signed, h.length, h.proved, rfl⟩, s₁, hins, rfl⟩

theorem purchaseAccessV2_eq_ok {auth pi p : List UInt8} :
    purchaseAccessV2 T s o auth pi p = .ok s' ↔ o = .none ∧ ∃ inputs cfg,
      SpendPublicV2.decode pi = some inputs ∧ s.accessKeyConfigs inputs.rwaId = some cfg ∧
      0 < cfg.price ∧
      Spendable T s auth pi p inputs.merkleRoot inputs.nullifier cfg.price
        inputs.changeLeaf inputs.changePkd false ∧ ∃ s₁,
      v2Insert T (markNullifier s inputs.nullifier) inputs.changeLeaf = .ok s₁ ∧ ∃ s₂,
      payFromPool T s₁ cfg.paymentAccount.toList cfg.price = .ok s₂ ∧
      s' = (s₂.depositEvent (.accessPurchaseV2Authorized inputs.rwaId inputs.txId)).send
        (.accessKey inputs.rwaId inputs.nullifier inputs.txId inputs.ownershipCommitment) := by
  simp only [purchaseAccessV2, bind_eq_ok, okOr_eq_ok, ensureNone_eq_ok, pure_eq_ok,
    exists_const, spendV2_eq_ok, checkNullifier_eq_ok, appConfig_eq_ok]
  constructor
  · rintro ⟨ho, inputs, hdec, ⟨hfresh, hanch⟩, cfg, ⟨hcfg, hprice⟩, _, ⟨hsig, hlen, hproof, rfl⟩,
      s₁, hins, s₂, hpay, rfl⟩
    exact ⟨ho, inputs, cfg, hdec, hcfg, hprice, ⟨hfresh, hanch, hsig, hlen, hproof⟩, s₁, hins, s₂,
      hpay, rfl⟩
  · rintro ⟨ho, inputs, cfg, hdec, hcfg, hprice, h, s₁, hins, s₂, hpay, rfl⟩
    exact ⟨ho, inputs, hdec, ⟨h.fresh, h.anchored⟩, cfg, ⟨hcfg, hprice⟩, _,
      ⟨h.signed, h.length, h.proved, rfl⟩, s₁, hins, s₂, hpay, rfl⟩

theorem withdrawV2_eq_ok {auth pi p : List UInt8} :
    withdrawV2 T s o auth pi p = .ok s' ↔ o = .none ∧ ∃ inputs,
      WithdrawPublicV2.decode pi = some inputs ∧
      Spendable T s auth pi p inputs.merkleRoot inputs.nullifier inputs.amount
        T.proofVerifier.v2ZeroChangeLeaf (U8Array.zero 32) true ∧ ∃ s₁,
      payFromPool T (markNullifier s inputs.nullifier) inputs.destination.toList inputs.amount =
        .ok s₁ ∧
      s' = s₁.depositEvent (.withdrawV2Completed inputs.txId) := by
  simp only [withdrawV2, bind_eq_ok, okOr_eq_ok, ensureNone_eq_ok, pure_eq_ok,
    exists_const, spendV2_eq_ok, checkNullifier_eq_ok]
  constructor
  · rintro ⟨ho, inputs, hdec, ⟨hfresh, hanch⟩, _, ⟨hsig, hlen, hproof, rfl⟩, s₁, hpay, rfl⟩
    exact ⟨ho, inputs, hdec, ⟨hfresh, hanch, hsig, hlen, hproof⟩, s₁, hpay, rfl⟩
  · rintro ⟨ho, inputs, hdec, h, s₁, hpay, rfl⟩
    exact ⟨ho, inputs, hdec, ⟨h.fresh, h.anchored⟩, _, ⟨h.signed, h.length, h.proved, rfl⟩, s₁,
      hpay, rfl⟩

end NullaRelay.ProofHub
