import NullaRelay.ProofHub.Footprint

/-!
# Purchases of RWAs on ProofHub

What the two lanes' purchases of an RWA have in common: the asset, the tag and the
nullifier, the caller's transaction id and the ownership commitment. An accepted
purchase writes the commitment under the id and sends all of this to the RWA
chain, and no two purchases carry one nullifier.
-/

namespace NullaRelay.ProofHub

open NullaRelay.Frame V2

variable {A L : Type} {s : State L}

/-- A purchase of an RWA, as both chains see it. -/
structure Purchase where
  rwaId : U8Array 32
  spendTag : U8Array 32
  nullifier : U8Array 32
  txId : U8Array 16
  ownershipCommitment : U8Array 32

/-- What the call buys; a v2 purchase has its nullifier for a tag. -/
def Call.purchase : Call → Option Purchase
  | .purchaseRwa _ pi => (RwaPurchaseInputs.decode pi).map fun i =>
      { rwaId := i.rwaId
        spendTag := i.spendTag
        nullifier := i.nullifier
        txId := i.txId
        ownershipCommitment := i.ownershipCommitment }
  | .purchaseRwaV2 _ pi _ => (SpendPublicV2.decode pi).map fun i =>
      { rwaId := i.rwaId
        spendTag := i.nullifier
        nullifier := i.nullifier
        txId := i.txId
        ownershipCommitment := i.ownershipCommitment }
  | _ => none

/-- The purchase that a message reports. -/
def Message.purchase : Message → Option Purchase
  | .rwaPurchase rwaId nullifier spendTag _ txId ownershipCommitment =>
      some { rwaId, spendTag, nullifier, txId, ownershipCommitment }
  | _ => none

/-- A call reports what it buys, nothing else. -/
theorem purchase_of_message (call : Call) :
    (call.footprint s).message.bind Message.purchase = call.purchase := by
  cases call with
  | purchaseRwa _ pi | purchaseAccess _ pi =>
      simp only [Call.footprint, Call.purchase]
      cases RwaPurchaseInputs.decode pi <;> rfl
  | purchaseRwaV2 _ pi _ | purchaseAccessV2 _ pi _ =>
      simp only [Call.footprint, Call.purchase]
      cases SpendPublicV2.decode pi <;> rfl
  | withdrawPrivate _ pi =>
      simp only [Call.footprint, Call.purchase]
      cases WithdrawInputs.decode pi <;> rfl
  | withdrawV2 _ pi _ =>
      simp only [Call.footprint, Call.purchase]
      cases WithdrawPublicV2.decode pi <;> rfl
  | _ => rfl

/-- A call other than a relist records what it buys, nothing else. -/
theorem record_of_purchase {call : Call} (h : ∀ i, call ≠ .relistPrivate i) :
    (call.footprint s).record = call.purchase.map fun p => (p.txId, p.ownershipCommitment) := by
  cases call with
  | purchaseRwa _ pi | purchaseAccess _ pi =>
      simp only [Call.footprint, Call.purchase]
      cases RwaPurchaseInputs.decode pi <;> rfl
  | purchaseRwaV2 _ pi _ | purchaseAccessV2 _ pi _ =>
      simp only [Call.footprint, Call.purchase]
      cases SpendPublicV2.decode pi <;> rfl
  | withdrawPrivate _ pi =>
      simp only [Call.footprint, Call.purchase]
      cases WithdrawInputs.decode pi <;> rfl
  | withdrawV2 _ pi _ =>
      simp only [Call.footprint, Call.purchase]
      cases WithdrawPublicV2.decode pi <;> rfl
  | relistPrivate i => exact absurd rfl (h i)
  | _ => rfl

theorem nullifier_of_purchase {call : Call} {p : Purchase} (h : call.purchase = some p) :
    (call.footprint s).nullifier = some p.nullifier := by
  cases call with
  | purchaseRwa _ pi =>
      obtain ⟨i, hdec, rfl⟩ := Option.map_eq_some_iff.1 h
      rw [Call.footprint, hdec]
      rfl
  | purchaseRwaV2 _ pi _ =>
      obtain ⟨i, hdec, rfl⟩ := Option.map_eq_some_iff.1 h
      rw [Call.footprint, hdec]
      rfl
  | _ => cases h

end NullaRelay.ProofHub
