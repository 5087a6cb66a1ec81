import NullaRelay.ProofHub.Effects
import NullaRelay.ScanProof.ValidateUnsigned

/-!
# Admission of unsigned calls to ProofHub

`validateUnsigned` is what the transaction pool and, before dispatch, the block
execution check of an unsigned call. It decodes the public inputs, looks at the
marks and at the recent roots, and verifies no proof. Nothing that dispatch would
accept is refused here: `validateUnsigned_of_apply`.
-/

namespace NullaRelay.ProofHub

open NullaRelay.Frame Scale
open ScanProof (TransactionValidity validTransaction)

variable {A L : Type}

/-- The checks of the two v1 purchases. -/
def validateTagged (s : State L) (publicInputs : List UInt8) (tagPrefix : String) :
    TransactionValidity := do
  let inputs ← okOr (RwaPurchaseInputs.decode publicInputs) .call
  ensure ((s.spendTagCommitments inputs.spendTag).isSome) .stale
  ensure (s.spendTagUsed inputs.spendTag = false) .stale
  ensure (s.nullifierUsed inputs.nullifier = false) .stale
  pure (validTransaction tagPrefix
    [inputs.txId.toList, inputs.nullifier.toList, inputs.spendTag.toList] 64)

def validateWithdrawPrivate (s : State L) (publicInputs : List UInt8) :
    TransactionValidity := do
  let inputs ← okOr (WithdrawInputs.decode publicInputs) .call
  ensure ((s.spendTagCommitments inputs.spendTag).isSome) .stale
  ensure (s.spendTagUsed inputs.spendTag = false) .stale
  pure (validTransaction "NullaWithdraw" [inputs.txId.toList, inputs.spendTag.toList] 64)

/-- The record that is transferred is checked and not provided. -/
def validateRelistPrivate (s : State L) (relist : RelistInputs) : TransactionValidity := do
  ensure ((s.ownershipCommitments relist.oldTxId).isSome ∧
    s.ownershipUsed relist.oldTxId = false ∧
    (s.spendTagCommitments relist.newBuyerSpendTag).isSome ∧
    s.spendTagUsed relist.newBuyerSpendTag = false) .stale
  pure (validTransaction "NullaRelist"
    [relist.newTxId.toList, relist.newBuyerSpendTag.toList] 64)

/-- The checks of the v2 spends once their inputs are decoded. -/
def validateSpendV2 (s : State L) (merkleRoot nullifier : U8Array 32) (txId : U8Array 16)
    (tagPrefix : String) : TransactionValidity := do
  ensure (s.nullifierUsed nullifier = false) .stale
  ensure (s.V2RootAnchored merkleRoot) .stale
  pure (validTransaction tagPrefix [txId.toList, nullifier.toList] 64)

/-- The checks of the two v2 purchases. -/
def validatePurchaseV2 (s : State L) (publicInputs : List UInt8) (tagPrefix : String) :
    TransactionValidity := do
  let inputs ← okOr (SpendPublicV2.decode publicInputs) .call
  validateSpendV2 s inputs.merkleRoot inputs.nullifier inputs.txId tagPrefix

def validateWithdrawV2 (s : State L) (publicInputs : List UInt8) : TransactionValidity := do
  let inputs ← okOr (WithdrawPublicV2.decode publicInputs) .call
  validateSpendV2 s inputs.merkleRoot inputs.nullifier inputs.txId "NullaWithdrawV2"

def validateUnsigned (s : State L) : Call → TransactionValidity
  | .purchaseRwa _ pi => validateTagged s pi "RwaPurchase"
  | .withdrawPrivate _ pi => validateWithdrawPrivate s pi
  | .relistPrivate relist => validateRelistPrivate s relist
  | .purchaseRwaV2 _ pi _ => validatePurchaseV2 s pi "NullaPurchaseV2"
  | .withdrawV2 _ pi _ => validateWithdrawV2 s pi
  | .purchaseAccess _ pi => validateTagged s pi "DistAccessPurchase"
  | .purchaseAccessV2 _ pi _ => validatePurchaseV2 s pi "DistAccessPurchaseV2"
  | _ => .error .call

variable {T : Config A L} {s s' : State L}

theorem validateTagged_ok_iff {pi : List UInt8} {tagPrefix : String} :
    (∃ v, validateTagged s pi tagPrefix = .ok v) ↔
      ∃ i, RwaPurchaseInputs.decode pi = some i ∧ (s.spendTagCommitments i.spendTag).isSome ∧
        s.spendTagUsed i.spendTag = false ∧ s.nullifierUsed i.nullifier = false := by
  simp [validateTagged]

theorem validateWithdrawPrivate_ok_iff {pi : List UInt8} :
    (∃ v, validateWithdrawPrivate s pi = .ok v) ↔
      ∃ i, WithdrawInputs.decode pi = some i ∧ (s.spendTagCommitments i.spendTag).isSome ∧
        s.spendTagUsed i.spendTag = false := by
  simp [validateWithdrawPrivate]

theorem validateRelistPrivate_ok_iff {relist : RelistInputs} :
    (∃ v, validateRelistPrivate s relist = .ok v) ↔
      (s.ownershipCommitments relist.oldTxId).isSome ∧ s.ownershipUsed relist.oldTxId = false ∧
        (s.spendTagCommitments relist.newBuyerSpendTag).isSome ∧
          s.spendTagUsed relist.newBuyerSpendTag = false := by
  simp [validateRelistPrivate]

theorem validatePurchaseV2_ok_iff {pi : List UInt8} {tagPrefix : String} :
    (∃ v, validatePurchaseV2 s pi tagPrefix = .ok v) ↔
      ∃ i, SpendPublicV2.decode pi = some i ∧ s.nullifierUsed i.nullifier = false ∧
        s.V2RootAnchored i.merkleRoot := by
  simp [validatePurchaseV2, validateSpendV2]

theorem validateWithdrawV2_ok_iff {pi : List UInt8} :
    (∃ v, validateWithdrawV2 s pi = .ok v) ↔
      ∃ i, WithdrawPublicV2.decode pi = some i ∧ s.nullifierUsed i.nullifier = false ∧
        s.V2RootAnchored i.merkleRoot := by
  simp [validateWithdrawV2, validateSpendV2]

/-- The pool refuses no unsigned call that dispatch would carry out. -/
theorem validateUnsigned_of_apply {c : Call} (h : apply T s (.none, c) = .ok s') :
    ∃ v, validateUnsigned s c = .ok v := by
  cases c with
  | purchaseRwa p pi =>
      obtain ⟨-, i, rp, hspend, -⟩ := purchaseRwa_eq_ok.1 h
      exact validateTagged_ok_iff.2
        ⟨i, hspend.decoded, hspend.registered, hspend.unused, hspend.fresh⟩
  | purchaseAccess p pi =>
      obtain ⟨-, i, cfg, rp, -, hspend, -⟩ := purchaseAccess_eq_ok.1 h
      exact validateTagged_ok_iff.2
        ⟨i, hspend.decoded, hspend.registered, hspend.unused, hspend.fresh⟩
  | withdrawPrivate p pi =>
      obtain ⟨-, i, hdec, hunused, -, ⟨stored, hstored, -⟩, -⟩ := withdrawPrivate_eq_ok.1 h
      have hregistered : (s.spendTagCommitments i.spendTag).isSome := by simp [hstored]
      exact validateWithdrawPrivate_ok_iff.2 ⟨i, hdec, hregistered, hunused⟩
  | relistPrivate inputs =>
      obtain ⟨-, change, hrelist, -⟩ := relistPrivate_eq_ok.1 h
      obtain ⟨stored, hstored, -⟩ := hrelist.opened
      have howned : (s.ownershipCommitments inputs.oldTxId).isSome := by simp [hrelist.owned]
      have hregistered : (s.spendTagCommitments inputs.newBuyerSpendTag).isSome := by
        simp [hstored]
      exact validateRelistPrivate_ok_iff.2 ⟨howned, hrelist.unsold, hregistered, hrelist.unused⟩
  | purchaseRwaV2 auth pi p =>
      obtain ⟨-, i, hdec, -, hspend, -⟩ := purchaseRwaV2_eq_ok.1 h
      exact validatePurchaseV2_ok_iff.2 ⟨i, hdec, hspend.fresh, hspend.anchored⟩
  | purchaseAccessV2 auth pi p =>
      obtain ⟨-, i, cfg, hdec, -, -, hspend, -⟩ := purchaseAccessV2_eq_ok.1 h
      exact validatePurchaseV2_ok_iff.2 ⟨i, hdec, hspend.fresh, hspend.anchored⟩
  | withdrawV2 auth pi p =>
      obtain ⟨-, i, hdec, hspend, -⟩ := withdrawV2_eq_ok.1 h
      exact validateWithdrawV2_ok_iff.2 ⟨i, hdec, hspend.fresh, hspend.anchored⟩
  | depositPublic => simp [apply, dispatch, depositPublic] at h
  | depositV2 leaf amount p hints =>
      obtain ⟨who, ho, -⟩ := depositV2_eq_ok.1 h
      cases ho
  | setRwaPrice => simp [apply, dispatch, setRwaPrice] at h
  | setAccessConfig => simp [apply, dispatch, setAccessConfig] at h

end NullaRelay.ProofHub
