import NullaRelay.Foundations.Transition
import NullaRelay.Foundations.WriteOnce
import NullaRelay.RwaParachain.Marketplace

/-!
# Reported purchases and their redemption

A report by ProofHub's account records a purchase under an id that has none, and
no other call of the marketplace touches the records. A record is redeemed by
whoever opens its commitment, once.
-/

namespace NullaRelay.RwaParachain.Marketplace

open NullaRelay.Frame LittleEndian

variable {cfg : Config} {s s' : State} {o : Origin AccountId}

@[simp] theorem onRegistry_eq_ok {f : Registry.State → Registry.Result} :
    s.onRegistry f = .ok s' ↔ ∃ registry, f s.registry = .ok registry ∧
      s' = { s with registry } := by
  simp [State.onRegistry, @eq_comm _ s']

theorem redeemRwaOwnership_eq_ok {txId : U8Array 16} {blinding : U8Array 32} :
    redeemRwaOwnership cfg s o txId blinding = .ok s' ↔ ∃ redeemer purchase,
      o = .signed redeemer ∧ s.proofHubPurchases txId = some purchase ∧
      s.ownershipRedeemed txId = false ∧
      computeOwnershipCommitment cfg purchase.rwaId blinding = purchase.ownershipCommitment ∧
      s' = State.deposit { s with ownershipRedeemed := insertAt s.ownershipRedeemed txId true }
        (.ownershipRedeemed txId (UInt32.ofNat (leNat (purchase.rwaId.toList.take 4)))
          redeemer) := by
  simp only [redeemRwaOwnership, bind_eq_ok, ensureSigned_eq_ok, okOr_eq_ok, ensure_eq_ok,
    pure_eq_ok, exists_const]
  constructor
  · rintro ⟨redeemer, ho, purchase, hrecord, hfresh, hopen, rfl⟩
    exact ⟨redeemer, purchase, ho, hrecord, hfresh, hopen, rfl⟩
  · rintro ⟨redeemer, purchase, ho, hrecord, hfresh, hopen, rfl⟩
    exact ⟨redeemer, ho, purchase, hrecord, hfresh, hopen, rfl⟩

/-- The record that a call reports. -/
def Call.report : Call → Option (U8Array 16 × ProofHubPurchaseRecord)
  | .xcmRecordPurchase assetId buyer spendTag nullifier txId ownershipCommitment =>
      some (txId,
        { rwaId := U8Array.padded 32 (leBytes 4 assetId.toNat)
          buyer, spendTag, nullifier, ownershipCommitment })
  | _ => none

/-- The record that a call redeems. -/
def Call.redeemed : Call → Option (U8Array 16)
  | .redeemRwaOwnership txId _ => some txId
  | _ => none

theorem xcmRecordPurchase_eq_ok {assetId : UInt32} {buyer spendTag nullifier : U8Array 32}
    {txId : U8Array 16} {ownershipCommitment : U8Array 32} :
    xcmRecordPurchase cfg s o assetId buyer spendTag nullifier txId ownershipCommitment = .ok s' ↔
      o = .signed cfg.proofHubSovereign ∧ s.proofHubPurchases txId = none ∧
      s' = State.deposit { s with
        proofHubPurchases := insertAt s.proofHubPurchases txId (some
          { rwaId := U8Array.padded 32 (leBytes 4 assetId.toNat)
            buyer, spendTag, nullifier, ownershipCommitment }) }
        (.proofHubPurchaseReceived txId assetId buyer spendTag nullifier
          ownershipCommitment) := by
  simp only [xcmRecordPurchase, ensureProofHub, bind_eq_ok, ensureSigned_eq_ok, ensure_eq_ok,
    pure_eq_ok, exists_const, @eq_comm _ s']
  constructor
  · rintro ⟨⟨_, rfl, rfl⟩, hfree, hs⟩
    exact ⟨rfl, hfree, hs⟩
  · rintro ⟨rfl, hfree, hs⟩
    exact ⟨⟨_, rfl, rfl⟩, hfree, hs⟩

/-- What a successful call does to the reported purchases and their redemptions. -/
theorem records_of_dispatch {call : Call} (h : dispatch cfg s o call = .ok s') :
    s'.proofHubPurchases = call.report.elim s.proofHubPurchases
        (WriteOnce.writeOnce s.proofHubPurchases) ∧
      s'.ownershipRedeemed = call.redeemed.elim s.ownershipRedeemed
        fun t => insertAt s.ownershipRedeemed t true := by
  cases call with
  | listAsset =>
      simp only [dispatch, listAsset, bind_eq_ok, pure_eq_ok] at h
      obtain ⟨-, -, -, -, rfl⟩ := h
      exact ⟨rfl, rfl⟩
  | cancelListing =>
      simp only [dispatch, cancelListing, bind_eq_ok, pure_eq_ok, onRegistry_eq_ok] at h
      obtain ⟨-, -, -, -, -, -, -, ⟨-, -, rfl⟩, rfl⟩ := h
      exact ⟨rfl, rfl⟩
  | buyPrivately =>
      simp only [dispatch, buyPrivately, bind_eq_ok, pure_eq_ok, onRegistry_eq_ok] at h
      obtain ⟨-, -, -, -, -, -, -, -, -, ⟨-, -, rfl⟩, rfl⟩ := h
      exact ⟨rfl, rfl⟩
  | redeemAsset =>
      simp only [dispatch, redeemAsset, bind_eq_ok, pure_eq_ok, onRegistry_eq_ok] at h
      obtain ⟨-, -, -, -, -, -, -, -, -, ⟨-, -, rfl⟩, rfl⟩ := h
      exact ⟨rfl, rfl⟩
  | xcmRecordPurchase =>
      obtain ⟨-, hfree, rfl⟩ := xcmRecordPurchase_eq_ok.1 h
      refine ⟨?_, rfl⟩
      simp [Call.report, WriteOnce.writeOnce, hfree, State.deposit]
  | redeemRwaOwnership =>
      obtain ⟨_, _, -, -, -, -, rfl⟩ := redeemRwaOwnership_eq_ok.1 h
      exact ⟨rfl, rfl⟩

/-- Only ProofHub's account reports. -/
theorem report_eq_none {call : Call} (h : dispatch cfg s o call = .ok s')
    (ho : o ≠ .signed cfg.proofHubSovereign) : call.report = none := by
  cases call with
  | xcmRecordPurchase => exact absurd (xcmRecordPurchase_eq_ok.1 h).1 ho
  | _ => rfl

/-- A redemption finds its record unredeemed. -/
theorem unredeemed_of_dispatch {call : Call} (h : dispatch cfg s o call = .ok s') {t : U8Array 16}
    (ht : call.redeemed = some t) : s.ownershipRedeemed t = false := by
  cases call with
  | redeemRwaOwnership txId blinding =>
      obtain ⟨_, _, -, -, hfresh, -⟩ := redeemRwaOwnership_eq_ok.1 h
      cases ht
      exact hfresh
  | _ => cases ht

variable (cfg) in
/-- A call by ProofHub's account. -/
def sovereignStep (s : State) (call : Call) : Result :=
  dispatch cfg s (.signed cfg.proofHubSovereign) call

/-- The report of ProofHub's account is recorded once, a second one is refused. -/
theorem proofHubPurchases_next (s : State) (call : Call) :
    (Transition.next (sovereignStep cfg) s call).proofHubPurchases =
      call.report.elim s.proofHubPurchases (WriteOnce.writeOnce s.proofHubPurchases) := by
  cases hstep : sovereignStep cfg s call with
  | ok s' =>
      rw [Transition.next_ok hstep]
      exact (records_of_dispatch hstep).1
  | error e =>
      rw [Transition.next_error hstep]
      cases call with
      | xcmRecordPurchase assetId buyer spendTag nullifier txId ownershipCommitment =>
          by_cases hfree : s.proofHubPurchases txId = none
          · have hok : sovereignStep cfg s (.xcmRecordPurchase assetId buyer spendTag nullifier txId
                ownershipCommitment) = .ok _ :=
              xcmRecordPurchase_eq_ok.2 ⟨rfl, hfree, rfl⟩
            exact absurd (hstep.symm.trans hok) (by simp)
          · simp [Call.report, WriteOnce.writeOnce, hfree]
      | _ => rfl

theorem ownershipRedeemed_next (s : State) {call : Call} (h : call.redeemed = none) :
    (Transition.next (sovereignStep cfg) s call).ownershipRedeemed = s.ownershipRedeemed := by
  cases hstep : sovereignStep cfg s call with
  | ok s' =>
      rw [Transition.next_ok hstep, (records_of_dispatch hstep).2, h]
      rfl
  | error e => rw [Transition.next_error hstep]

end NullaRelay.RwaParachain.Marketplace
