import NullaRelay.AuthGate.AccessKeys
import NullaRelay.RwaParachain.Marketplace

/-!
# Cross-chain calls and their receivers

ProofHub and ScanProof write the calls of other chains by hand: a pallet index,
a call index and the arguments. A message agrees with its receiver when the
receiving runtime decodes it completely to the call that the sender names, with
the values that the sender put in, and lets the sender's sovereign account pass
the origin check of that call. The messages to AuthGate agree. None of the
messages to the RWA chain does: `xcm_record_purchase` takes a buyer that the
senders leave out, so their bytes end too early, and a transfer goes to a call
index that the marketplace does not have.
-/

namespace NullaRelay.Xcm

open NullaRelay.Frame Scale LittleEndian
open RwaParachain AuthGate

/-- A parachain of this network. -/
inductive Chain
  | proofHub
  | rwa
  | scanProof
  | authGate
  deriving DecidableEq

def Chain.paraId : Chain → ℕ
  | .proofHub => 2000
  | .rwa => 2001
  | .scanProof => 2002
  | .authGate => 2003

/-- `Sibling::from(id).into_account_truncating()`: the type id and the parachain
id, padded with zeros. -/
def siblingAccount (c : Chain) : U8Array 32 :=
  U8Array.padded 32 (byteString "sibl" ++ leBytes 4 c.paraId)

/-- A `Transact` in an XCM message: the chain it goes to and the encoded call. -/
structure Transact where
  dest : Chain
  call : List UInt8

/-- First four bytes of the asset's 32-byte id, little-endian. -/
def assetIdOf (rwaId : U8Array 32) : UInt32 := UInt32.ofNat (leNat (rwaId.toList.take 4))

namespace ProofHub

def RwaXcmDispatch.send (rwaId nullifier spendTag : U8Array 32) (_noteValue : UInt64)
    (txId : U8Array 16) (ownershipCommitment : U8Array 32) : Transact :=
  { dest := .rwa
    call := 51 :: 4 :: (encodeU32 (assetIdOf rwaId) ++ spendTag.toList ++ nullifier.toList ++
      txId.toList ++ ownershipCommitment.toList) }

def RwaXcmDispatch.sendTransfer (oldTxId : U8Array 16) (newOwnershipCommitment : U8Array 32)
    (newTxId : U8Array 16) : Transact :=
  { dest := .rwa
    call := 51 :: 6 :: (oldTxId.toList ++ newOwnershipCommitment.toList ++ newTxId.toList) }

def AccessGateXcmDispatch.send (appId nullifier : U8Array 32) (txId : U8Array 16)
    (accessKeyCommitment : U8Array 32) : Transact :=
  { dest := .authGate
    call := 50 :: 2 :: (appId.toList ++ nullifier.toList ++ txId.toList ++
      accessKeyCommitment.toList) }

end ProofHub

namespace ScanProof

def RwaXcmDispatch.send (rwaId nullifier spendTag : U8Array 32) (_noteValue : UInt64)
    (txId : U8Array 16) (ownershipCommitment : U8Array 32) : Transact :=
  { dest := .rwa
    call := 51 :: 4 :: (encodeU32 (assetIdOf rwaId) ++ spendTag.toList ++ nullifier.toList ++
      txId.toList ++ ownershipCommitment.toList) }

def AccessGateXcmDispatch.send (appId nullifier : U8Array 32) (txId : U8Array 16)
    (accessKeyCommitment : U8Array 32) : Transact :=
  { dest := .authGate
    call := 50 :: 2 :: (appId.toList ++ nullifier.toList ++ txId.toList ++
      accessKeyCommitment.toList) }

end ScanProof

/-- What a pallet asks its dispatcher to send. -/
inductive Message
  | proofHubPurchase (rwaId nullifier spendTag : U8Array 32) (noteValue : UInt64)
      (txId : U8Array 16) (ownershipCommitment : U8Array 32)
  | proofHubTransfer (oldTxId : U8Array 16) (newOwnershipCommitment : U8Array 32)
      (newTxId : U8Array 16)
  | proofHubAccess (appId nullifier : U8Array 32) (txId : U8Array 16)
      (accessKeyCommitment : U8Array 32)
  | scanProofPurchase (rwaId nullifier spendTag : U8Array 32) (noteValue : UInt64)
      (txId : U8Array 16) (ownershipCommitment : U8Array 32)
  | scanProofAccess (appId nullifier : U8Array 32) (txId : U8Array 16)
      (accessKeyCommitment : U8Array 32)

/-- The calls of the receiving pallets by name, and the one name that only a
sender uses. -/
inductive CallName
  | listAsset
  | cancelListing
  | buyPrivately
  | redeemAsset
  | xcmRecordPurchase
  | redeemRwaOwnership
  | xcmTransferOwnership
  | listAccessSlot
  | updateAccessSlot
  | xcmRecordAccessGrant
  | useAccessKey
  deriving DecidableEq

/-- The values of a call that the two sides have to agree on. -/
structure Carried where
  assetId : Option UInt32
  appId : Option (U8Array 32)
  spendTag : Option (U8Array 32)
  nullifier : Option (U8Array 32)
  txIds : List (U8Array 16)
  commitment : Option (U8Array 32)

/-- Nothing carried. -/
def Carried.empty : Carried :=
  { assetId := none, appId := none, spendTag := none, nullifier := none, txIds := [],
    commitment := none }

namespace Message

def transact : Message → Transact
  | .proofHubPurchase rwaId nullifier spendTag v txId commitment =>
      ProofHub.RwaXcmDispatch.send rwaId nullifier spendTag v txId commitment
  | .proofHubTransfer oldTxId commitment newTxId =>
      ProofHub.RwaXcmDispatch.sendTransfer oldTxId commitment newTxId
  | .proofHubAccess appId nullifier txId commitment =>
      ProofHub.AccessGateXcmDispatch.send appId nullifier txId commitment
  | .scanProofPurchase rwaId nullifier spendTag v txId commitment =>
      ScanProof.RwaXcmDispatch.send rwaId nullifier spendTag v txId commitment
  | .scanProofAccess appId nullifier txId commitment =>
      ScanProof.AccessGateXcmDispatch.send appId nullifier txId commitment

def sender : Message → Chain
  | .proofHubPurchase .. | .proofHubTransfer .. | .proofHubAccess .. => .proofHub
  | .scanProofPurchase .. | .scanProofAccess .. => .scanProof

/-- The call that the sender's source names. -/
def callName : Message → CallName
  | .proofHubPurchase .. | .scanProofPurchase .. => .xcmRecordPurchase
  | .proofHubTransfer .. => .xcmTransferOwnership
  | .proofHubAccess .. | .scanProofAccess .. => .xcmRecordAccessGrant

def carried : Message → Carried
  | .proofHubPurchase rwaId nullifier spendTag _ txId commitment
  | .scanProofPurchase rwaId nullifier spendTag _ txId commitment =>
      { Carried.empty with
        assetId := some (assetIdOf rwaId), spendTag := some spendTag,
        nullifier := some nullifier, txIds := [txId], commitment := some commitment }
  | .proofHubTransfer oldTxId commitment newTxId =>
      { Carried.empty with txIds := [oldTxId, newTxId], commitment := some commitment }
  | .proofHubAccess appId nullifier txId commitment
  | .scanProofAccess appId nullifier txId commitment =>
      { Carried.empty with
        appId := some appId, nullifier := some nullifier, txIds := [txId],
        commitment := some commitment }

/-- Sent by one of the two `AccessGateXcmDispatch`. -/
def ToAuthGate : Message → Prop
  | .proofHubAccess .. | .scanProofAccess .. => True
  | _ => False

instance : DecidablePred ToAuthGate := fun m => by
  cases m <;> simp only [ToAuthGate] <;> infer_instance

end Message

/-- A call of a receiving runtime to one of the two pallets modelled. -/
inductive RuntimeCall
  | rwaMarketplace (call : Marketplace.Call)
  | accessKeys (call : AccessKeys.Call)

namespace RuntimeCall

/-- The runtime's call: the index of the pallet, then the pallet's call. Bytes
for the other pallets are no call of these two. -/
def decoder : Chain → Decoder RuntimeCall
  | .rwa => do
      let palletIndex ← decodeU8
      if palletIndex = 51 then rwaMarketplace <$> Marketplace.Call.decoder else failure
  | .authGate => do
      let palletIndex ← decodeU8
      if palletIndex = 50 then accessKeys <$> AccessKeys.Call.decoder else failure
  | _ => failure

def name : RuntimeCall → CallName
  | .rwaMarketplace (.listAsset ..) => .listAsset
  | .rwaMarketplace (.cancelListing ..) => .cancelListing
  | .rwaMarketplace (.buyPrivately ..) => .buyPrivately
  | .rwaMarketplace (.redeemAsset ..) => .redeemAsset
  | .rwaMarketplace (.xcmRecordPurchase ..) => .xcmRecordPurchase
  | .rwaMarketplace (.redeemRwaOwnership ..) => .redeemRwaOwnership
  | .accessKeys (.listAccessSlot ..) => .listAccessSlot
  | .accessKeys (.updateAccessSlot ..) => .updateAccessSlot
  | .accessKeys (.xcmRecordAccessGrant ..) => .xcmRecordAccessGrant
  | .accessKeys (.useAccessKey ..) => .useAccessKey

/-- The shared values among the arguments of a call that a message may name. -/
def carried : RuntimeCall → Carried
  | .rwaMarketplace (.xcmRecordPurchase assetId _ spendTag nullifier txId commitment) =>
      { Carried.empty with
        assetId := some assetId, spendTag := some spendTag, nullifier := some nullifier,
        txIds := [txId], commitment := some commitment }
  | .accessKeys (.xcmRecordAccessGrant appId nullifier txId commitment) =>
      { Carried.empty with
        appId := some appId, nullifier := some nullifier, txIds := [txId],
        commitment := some commitment }
  | _ => Carried.empty

end RuntimeCall

/-- The marketplace's configuration in the RWA runtime. -/
def rwaConfig (blake3 : List UInt8 → U8Array 32) : Marketplace.Config :=
  { proofHubSovereign := siblingAccount .proofHub, blake3 }

/-- The access-key pallet's configuration in the AuthGate runtime. -/
def authGateConfig (blake3 : List UInt8 → U8Array 32) : AccessKeys.Config :=
  { proofHubSovereign := siblingAccount .proofHub
    proofHubSovereign2 := siblingAccount .scanProof
    blake3 }

/-- The account `who` passes the origin check of the call. -/
def PassesOrigin (blake3 : List UInt8 → U8Array 32) (who : U8Array 32) : RuntimeCall → Prop
  | .rwaMarketplace call => Marketplace.checkOrigin (rwaConfig blake3) (.signed who) call = .ok ()
  | .accessKeys call => AccessKeys.checkOrigin (authGateConfig blake3) (.signed who) call = .ok ()

/-- The receiver reads the message as the call that the sender names, with the
sender's values, and accepts the sender's account as its origin. -/
def Agrees (blake3 : List UInt8 → U8Array 32) (m : Message) : Prop :=
  ∃ call, decodeAll (RuntimeCall.decoder m.transact.dest) m.transact.call = some call ∧
    call.name = m.callName ∧ call.carried = m.carried ∧
    PassesOrigin blake3 (siblingAccount m.sender) call

theorem decodeAll_rwa (bs : List UInt8) :
    decodeAll (RuntimeCall.decoder .rwa) (51 :: bs) =
      (decodeAll Marketplace.Call.decoder bs).map .rwaMarketplace := by
  rw [← decodeAll_map]
  simp only [decodeAll, RuntimeCall.decoder, run_decodeU8_bind, if_true]

theorem decodeAll_authGate (bs : List UInt8) :
    decodeAll (RuntimeCall.decoder .authGate) (50 :: bs) =
      (decodeAll AccessKeys.Call.decoder bs).map .accessKeys := by
  rw [← decodeAll_map]
  simp only [decodeAll, RuntimeCall.decoder, run_decodeU8_bind, if_true]

/-- The purchase message ends where `xcm_record_purchase` still wants its last
argument: the senders leave the buyer out. -/
theorem purchase_not_decoded (assetId : UInt32) (spendTag nullifier : U8Array 32)
    (txId : U8Array 16) (commitment : U8Array 32) :
    decodeAll (RuntimeCall.decoder .rwa) (51 :: 4 :: (encodeU32 assetId ++ spendTag.toList ++
      nullifier.toList ++ txId.toList ++ commitment.toList)) = none := by
  have hargs : (Marketplace.Call.decoder.run (4 :: (encodeU32 assetId ++ (spendTag.toList ++
      (nullifier.toList ++ (txId.toList ++ commitment.toList)))))) = none := by
    rw [Marketplace.Call.decoder, run_decodeU8_bind]
    change (decodeU32 >>= _).run _ = none
    rw [run_decodeU32_bind, run_takeBytes_bind, run_takeBytes_bind]
    refine run_takeBytes_bind_none fun _ => run_takeBytes_bind_none fun _ =>
      run_takeBytes_bind_eq_none ?_ _
    simp
  rw [decodeAll_rwa, decodeAll]
  simp [List.append_assoc, hargs]

/-- The marketplace has no call with index 6. -/
theorem transfer_not_decoded (bs : List UInt8) :
    decodeAll (RuntimeCall.decoder .rwa) (51 :: 6 :: bs) = none := by
  have hargs : Marketplace.Call.decoder.run (6 :: bs) = none := by
    rw [Marketplace.Call.decoder, run_decodeU8_bind]
    rfl
  rw [decodeAll_rwa, decodeAll, hargs]
  rfl

theorem access_decoded (appId nullifier : U8Array 32) (txId : U8Array 16)
    (commitment : U8Array 32) :
    decodeAll (RuntimeCall.decoder .authGate) (50 :: 2 :: (appId.toList ++ nullifier.toList ++
      txId.toList ++ commitment.toList)) =
        some (.accessKeys (.xcmRecordAccessGrant appId nullifier txId commitment)) := by
  have hargs : AccessKeys.Call.decoder.run (2 :: (appId.toList ++ (nullifier.toList ++
      (txId.toList ++ (commitment.toList ++ []))))) =
        some (.xcmRecordAccessGrant appId nullifier txId commitment, []) := by
    rw [AccessKeys.Call.decoder, run_decodeU8_bind]
    change (takeBytes 32 >>= _).run _ = _
    simp only [run_takeBytes_bind]
    rfl
  rw [List.append_nil] at hargs
  rw [decodeAll_authGate, decodeAll]
  simp [List.append_assoc, hargs]

theorem access_passesOrigin (blake3 : List UInt8 → U8Array 32) {c : Chain}
    (hc : c = .proofHub ∨ c = .scanProof) (appId nullifier : U8Array 32) (txId : U8Array 16)
    (commitment : U8Array 32) :
    PassesOrigin blake3 (siblingAccount c)
      (.accessKeys (.xcmRecordAccessGrant appId nullifier txId commitment)) := by
  have hmem : siblingAccount c = siblingAccount .proofHub ∨
      siblingAccount c = siblingAccount .scanProof := by
    rcases hc with rfl | rfl
    · exact .inl rfl
    · exact .inr rfl
  exact ensure_pos hmem _

/-- Not only the bytes: ScanProof's account may not report purchases at all. -/
theorem scanProof_purchase_refused (blake3 : List UInt8 → U8Array 32) (assetId : UInt32)
    (buyer spendTag nullifier : U8Array 32) (txId : U8Array 16) (commitment : U8Array 32) :
    ¬ PassesOrigin blake3 (siblingAccount .scanProof) (.rwaMarketplace
      (.xcmRecordPurchase assetId buyer spendTag nullifier txId commitment)) := by
  intro hpass
  have heq : siblingAccount .scanProof = siblingAccount .proofHub := ensure_eq_ok.1 hpass
  exact absurd heq (by decide)

theorem not_agrees_of_not_decoded {blake3 : List UInt8 → U8Array 32} {m : Message}
    (h : decodeAll (RuntimeCall.decoder m.transact.dest) m.transact.call = none) :
    ¬ Agrees blake3 m := by
  rintro ⟨call, hcall, -⟩
  exact absurd (h.symm.trans hcall) (by simp)

/-- Exactly the messages to AuthGate agree with their receiver. -/
theorem agrees_iff_toAuthGate (blake3 : List UInt8 → U8Array 32) (m : Message) :
    Agrees blake3 m ↔ m.ToAuthGate := by
  cases m with
  | proofHubPurchase rwaId nullifier spendTag v txId commitment
  | scanProofPurchase rwaId nullifier spendTag v txId commitment =>
      have hnone := purchase_not_decoded (assetIdOf rwaId) spendTag nullifier txId commitment
      exact iff_of_false (not_agrees_of_not_decoded hnone) id
  | proofHubTransfer oldTxId commitment newTxId =>
      exact iff_of_false (not_agrees_of_not_decoded (transfer_not_decoded _)) id
  | proofHubAccess appId nullifier txId commitment =>
      refine iff_of_true ⟨_, access_decoded appId nullifier txId commitment, rfl, rfl, ?_⟩ trivial
      exact access_passesOrigin blake3 (.inl rfl) appId nullifier txId commitment
  | scanProofAccess appId nullifier txId commitment =>
      refine iff_of_true ⟨_, access_decoded appId nullifier txId commitment, rfl, rfl, ?_⟩ trivial
      exact access_passesOrigin blake3 (.inr rfl) appId nullifier txId commitment

/-- A purchase of asset zero on ProofHub, with every other value zero. -/
def zeroPurchase : Message :=
  .proofHubPurchase (U8Array.zero 32) (U8Array.zero 32) (U8Array.zero 32) 0 (U8Array.zero 16)
    (U8Array.zero 32)

/-- The RWA chain does not decode it. -/
theorem zeroPurchase_disagrees :
    ¬ Agrees (fun _ => U8Array.zero 32) zeroPurchase ∧
      decodeAll (RuntimeCall.decoder .rwa) zeroPurchase.transact.call = none := by
  have hnone : decodeAll (RuntimeCall.decoder .rwa) zeroPurchase.transact.call = none :=
    purchase_not_decoded 0 _ _ _ _
  exact ⟨not_agrees_of_not_decoded hnone, hnone⟩

end NullaRelay.Xcm
