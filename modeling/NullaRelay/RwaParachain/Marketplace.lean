import NullaRelay.Foundations.Scale
import NullaRelay.RwaParachain.Registry

/-!
# The marketplace of the RWA parachain

Listings of locked assets, their private sale and redemption, and the purchases
that ProofHub reports by a cross-chain call. A reported purchase carries a
commitment to its owner's blinding; whoever reveals the blinding redeems it.
-/

namespace NullaRelay.RwaParachain.Marketplace

open NullaRelay.Frame Scale LittleEndian

abbrev AccountId := Registry.AccountId

inductive ListingStatus
  | active
  | soldPrivately
  | soldPublicly
  | cancelled
  | redeemed
  deriving DecidableEq

structure Listing where
  seller : AccountId
  assetId : UInt32
  priceHint : Fin (2 ^ 128)
  status : ListingStatus
  /-- Hash of the payment's output commitment, once the asset is sold. -/
  entryCommitmentHash : Option (U8Array 32)

structure RedemptionClaim where
  assetId : UInt32
  nullifierHash : U8Array 32
  contact : Option (BoundedVec UInt8 256)
  redeemer : AccountId

/-- A purchase reported by ProofHub. -/
structure ProofHubPurchaseRecord where
  rwaId : U8Array 32
  buyer : U8Array 32
  spendTag : U8Array 32
  nullifier : U8Array 32
  ownershipCommitment : U8Array 32

/-- The configuration: the account that stands for ProofHub on this chain, and
the hash function. The administrator is root. -/
structure Config where
  proofHubSovereign : AccountId
  blake3 : List UInt8 → U8Array 32

inductive Event
  | assetListed (assetId : UInt32) (seller : AccountId) (priceHint : Fin (2 ^ 128))
  | listingCancelled (assetId : UInt32)
  | assetSoldPrivately (assetId : UInt32) (buyer : AccountId)
      (entryCommitmentHash : U8Array 32)
  | redemptionSubmitted (assetId : UInt32) (nullifierHash : U8Array 32) (redeemer : AccountId)
  | assetRedeemed (assetId : UInt32) (nullifierHash : U8Array 32)
  | proofHubPurchaseReceived (txId : U8Array 16) (assetId : UInt32)
      (buyer spendTag nullifier ownershipCommitment : U8Array 32)
  | ownershipRedeemed (txId : U8Array 16) (assetId : UInt32) (redeemer : AccountId)

inductive Error
  | listingNotFound
  | notActive
  | assetNotAvailableForSale
  | nullifierAlreadyUsed
  | assetNotSoldPrivately
  | notProofHubSovereign
  | purchaseAlreadyRecorded
  | purchaseNotFound
  | ownershipAlreadyRedeemed
  | invalidOwnershipProof
  | registry (error : Registry.Error)
  deriving DecidableEq

/-- The storage of the pallet together with the registry's. -/
structure State where
  registry : Registry.State
  listings : UInt32 → Option Listing
  redemptionClaims : U8Array 32 → Option RedemptionClaim
  nullifierUsed : U8Array 32 → Bool
  proofHubPurchases : U8Array 16 → Option ProofHubPurchaseRecord
  ownershipRedeemed : U8Array 16 → Bool
  events : List Event

abbrev Result := Except (DispatchError Error) State

namespace State

def deposit (s : State) (e : Event) : State := { s with events := s.events ++ [e] }

def setListing (s : State) (assetId : UInt32) (l : Listing) : State :=
  { s with listings := insertAt s.listings assetId (some l) }

/-- A call into the registry, its errors passed on. -/
def onRegistry (s : State) (f : Registry.State → Registry.Result) : Result := do
  let registry ← (f s.registry).mapError (DispatchError.map Error.registry)
  pure { s with registry }

end State

variable (cfg : Config)

def listAsset (s : State) (origin : Origin AccountId) (assetId : UInt32) (seller : AccountId)
    (priceHint : Fin (2 ^ 128)) : Result := do
  ensureRoot origin
  ensure (Registry.isAvailableForSale s.registry assetId = true)
    (.module .assetNotAvailableForSale)
  let listing : Listing :=
    { seller, assetId, priceHint, status := .active, entryCommitmentHash := none }
  pure ((s.setListing assetId listing).deposit (.assetListed assetId seller priceHint))

def cancelListing (s : State) (origin : Origin AccountId) (assetId : UInt32) : Result := do
  ensureRoot origin
  let listing ← okOr (s.listings assetId) (.module .listingNotFound)
  ensure (listing.status = .active) (.module .notActive)
  let s := s.setListing assetId { listing with status := .cancelled }
  let s ← s.onRegistry fun r => Registry.internalRelease r assetId
  pure (s.deposit (.listingCancelled assetId))

def buyPrivately (s : State) (origin : Origin AccountId) (assetId : UInt32)
    (entryCommitmentHash : U8Array 32) : Result := do
  let buyer ← ensureSigned origin
  let listing ← okOr (s.listings assetId) (.module .listingNotFound)
  ensure (listing.status = .active) (.module .notActive)
  ensure (Registry.isAvailableForSale s.registry assetId = true)
    (.module .assetNotAvailableForSale)
  let listing := { listing with
    status := .soldPrivately
    entryCommitmentHash := some entryCommitmentHash }
  let s ← s.onRegistry fun r => Registry.internalMarkSold r assetId
  pure ((s.setListing assetId listing).deposit
    (.assetSoldPrivately assetId buyer entryCommitmentHash))

def redeemAsset (s : State) (origin : Origin AccountId) (assetId : UInt32)
    (nullifierHash : U8Array 32) (contact : Option (BoundedVec UInt8 256)) : Result := do
  let redeemer ← ensureSigned origin
  ensure (s.nullifierUsed nullifierHash = false) (.module .nullifierAlreadyUsed)
  let listing ← okOr (s.listings assetId) (.module .listingNotFound)
  ensure (listing.status = .soldPrivately) (.module .assetNotSoldPrivately)
  let claim : RedemptionClaim := { assetId, nullifierHash, contact, redeemer }
  let s := { s with
    nullifierUsed := insertAt s.nullifierUsed nullifierHash true
    redemptionClaims := insertAt s.redemptionClaims nullifierHash (some claim) }
  let s := s.setListing assetId { listing with status := .redeemed }
  let s ← s.onRegistry fun r => Registry.internalRelease r assetId
  pure ((s.deposit (.redemptionSubmitted assetId nullifierHash redeemer)).deposit
    (.assetRedeemed assetId nullifierHash))

/-- Only ProofHub's sovereign account reports purchases. -/
def ensureProofHub (origin : Origin AccountId) : Except (DispatchError Error) Unit := do
  let caller ← ensureSigned origin
  ensure (caller = cfg.proofHubSovereign) (.module .notProofHubSovereign)

def xcmRecordPurchase (s : State) (origin : Origin AccountId) (assetId : UInt32)
    (buyer spendTag nullifier : U8Array 32) (txId : U8Array 16)
    (ownershipCommitment : U8Array 32) : Result := do
  ensureProofHub cfg origin
  ensure (s.proofHubPurchases txId = none) (.module .purchaseAlreadyRecorded)
  let rwaId := U8Array.padded 32 (leBytes 4 assetId.toNat)
  let purchase : ProofHubPurchaseRecord :=
    { rwaId, buyer, spendTag, nullifier, ownershipCommitment }
  let s := { s with proofHubPurchases := insertAt s.proofHubPurchases txId (some purchase) }
  pure (s.deposit
    (.proofHubPurchaseReceived txId assetId buyer spendTag nullifier ownershipCommitment))

def computeOwnershipCommitment (rwaId blinding : U8Array 32) : U8Array 32 :=
  cfg.blake3 (byteString "nulla_rwa_ownership_v1" ++ rwaId.toList ++ blinding.toList)

def redeemRwaOwnership (s : State) (origin : Origin AccountId) (txId : U8Array 16)
    (blinding : U8Array 32) : Result := do
  let redeemer ← ensureSigned origin
  let purchase ← okOr (s.proofHubPurchases txId) (.module .purchaseNotFound)
  ensure (s.ownershipRedeemed txId = false) (.module .ownershipAlreadyRedeemed)
  let expected := computeOwnershipCommitment cfg purchase.rwaId blinding
  ensure (expected = purchase.ownershipCommitment) (.module .invalidOwnershipProof)
  let s := { s with ownershipRedeemed := insertAt s.ownershipRedeemed txId true }
  let assetId := UInt32.ofNat (leNat (purchase.rwaId.toList.take 4))
  pure (s.deposit (.ownershipRedeemed txId assetId redeemer))

/-- The calls of the pallet, in the order of their call indices. -/
inductive Call
  | listAsset (assetId : UInt32) (seller : AccountId) (priceHint : Fin (2 ^ 128))
  | cancelListing (assetId : UInt32)
  | buyPrivately (assetId : UInt32) (entryCommitmentHash : U8Array 32)
  | redeemAsset (assetId : UInt32) (nullifierHash : U8Array 32)
      (contact : Option (BoundedVec UInt8 256))
  | xcmRecordPurchase (assetId : UInt32) (buyer spendTag nullifier : U8Array 32)
      (txId : U8Array 16) (ownershipCommitment : U8Array 32)
  | redeemRwaOwnership (txId : U8Array 16) (blinding : U8Array 32)

def dispatch (s : State) (origin : Origin AccountId) : Call → Result
  | .listAsset assetId seller priceHint => listAsset s origin assetId seller priceHint
  | .cancelListing assetId => cancelListing s origin assetId
  | .buyPrivately assetId hash => buyPrivately s origin assetId hash
  | .redeemAsset assetId hash contact => redeemAsset s origin assetId hash contact
  | .xcmRecordPurchase assetId buyer spendTag nullifier txId commitment =>
      xcmRecordPurchase cfg s origin assetId buyer spendTag nullifier txId commitment
  | .redeemRwaOwnership txId blinding => redeemRwaOwnership cfg s origin txId blinding

/-- The origin check that each call starts with. -/
def checkOrigin (origin : Origin AccountId) : Call → Except (DispatchError Error) Unit
  | .listAsset .. | .cancelListing .. => ensureRoot origin
  | .xcmRecordPurchase .. => ensureProofHub cfg origin
  | _ => do
    let _ ← ensureSigned origin
    pure ()

/-- The arguments of each call, after its index byte. -/
def Call.decoder : Decoder Call := do
  let callIndex ← decodeU8
  match callIndex with
  | 0 => Call.listAsset <$> decodeU32 <*> takeBytes 32 <*> decodeU128
  | 1 => Call.cancelListing <$> decodeU32
  | 2 => Call.buyPrivately <$> decodeU32 <*> takeBytes 32
  | 3 => Call.redeemAsset <$> decodeU32 <*> takeBytes 32 <*>
      decodeOption (decodeBoundedVec decodeU8 256)
  | 4 => do
    let assetId ← decodeU32
    let buyer ← takeBytes 32
    let spendTag ← takeBytes 32
    let nullifier ← takeBytes 32
    let txId ← takeBytes 16
    let ownershipCommitment ← takeBytes 32
    pure (.xcmRecordPurchase assetId buyer spendTag nullifier txId ownershipCommitment)
  | 5 => Call.redeemRwaOwnership <$> takeBytes 16 <*> takeBytes 32
  | _ => failure

variable {cfg}

/-- A call that succeeds has passed its origin check. -/
theorem checkOrigin_of_dispatch {s s' : State} {origin : Origin AccountId} {call : Call}
    (h : dispatch cfg s origin call = .ok s') : checkOrigin cfg origin call = .ok () := by
  cases call with
  | listAsset =>
      simp only [dispatch, listAsset, bind_eq_ok] at h
      exact h.choose_spec.1
  | cancelListing =>
      simp only [dispatch, cancelListing, bind_eq_ok] at h
      exact h.choose_spec.1
  | xcmRecordPurchase =>
      simp only [dispatch, xcmRecordPurchase, bind_eq_ok] at h
      exact h.choose_spec.1
  | buyPrivately =>
      simp only [dispatch, buyPrivately, bind_eq_ok] at h
      obtain ⟨who, hwho, -⟩ := h
      simp [checkOrigin, hwho]
  | redeemAsset =>
      simp only [dispatch, redeemAsset, bind_eq_ok] at h
      obtain ⟨who, hwho, -⟩ := h
      simp [checkOrigin, hwho]
  | redeemRwaOwnership =>
      simp only [dispatch, redeemRwaOwnership, bind_eq_ok] at h
      obtain ⟨who, hwho, -⟩ := h
      simp [checkOrigin, hwho]

end NullaRelay.RwaParachain.Marketplace
