import NullaRelay.Frame.Dispatch

/-!
# The asset registry of the RWA parachain

Real-world assets by their id. The administrator (root, in the runtime)
registers, locks, sells and releases them through calls; the marketplace pallet
goes through the `internal` functions, which check no origin.
-/

namespace NullaRelay.RwaParachain.Registry

open NullaRelay.Frame

/-- `AccountId32`. -/
abbrev AccountId := U8Array 32

inductive AssetCategory
  | realEstate
  | fleet
  | financialInstrument
  | commodity
  | intellectualProperty
  deriving DecidableEq

structure RWAAsset where
  assetId : UInt32
  name : BoundedVec UInt8 64
  description : BoundedVec UInt8 256
  category : AssetCategory
  usdValueCents : Fin (2 ^ 128)
  owner : AccountId
  /-- Physically locked: only a valid note holder can unlock it. -/
  isLocked : Bool
  isSold : Bool
  metadata : BoundedVec UInt8 512

structure CompanyInfo where
  name : BoundedVec UInt8 128
  disclaimer : BoundedVec UInt8 1024

inductive Event
  | assetRegistered (assetId : UInt32) (name : BoundedVec UInt8 64)
  | assetLocked (assetId : UInt32)
  | assetUnlocked (assetId : UInt32)
  | markedSold (assetId : UInt32)

inductive Error
  | assetNotFound
  | alreadySold
  | alreadyLocked
  | notLocked
  deriving DecidableEq

structure State where
  assets : UInt32 → Option RWAAsset
  nextAssetId : UInt32
  company : Option CompanyInfo
  events : List Event

abbrev Result := Except (DispatchError Error) State

namespace State

def deposit (s : State) (e : Event) : State := { s with events := s.events ++ [e] }

/-- `Assets::try_mutate`: a missing asset is an error, as is what `f` refuses. -/
def mutateAsset (s : State) (assetId : UInt32)
    (f : RWAAsset → Except (DispatchError Error) RWAAsset) : Result := do
  let asset ← okOr (s.assets assetId) (.module .assetNotFound)
  let asset ← f asset
  pure { s with assets := insertAt s.assets assetId (some asset) }

end State

/-- `u32::saturating_add(1)`. -/
def saturatingSucc (n : UInt32) : UInt32 := if n.toNat + 1 < 2 ^ 32 then n + 1 else n

/-- `GenesisConfig::build`. -/
def genesis (assets : List RWAAsset) (company : Option CompanyInfo) : State :=
  assets.foldl
    (fun s asset => { s with
      assets := insertAt s.assets s.nextAssetId (some asset)
      nextAssetId := saturatingSucc s.nextAssetId })
    { assets := fun _ => none, nextAssetId := 0, company, events := [] }

def registerAsset (s : State) (origin : Origin AccountId) (owner : AccountId)
    (name : BoundedVec UInt8 64) (description : BoundedVec UInt8 256)
    (category : AssetCategory) (usdValueCents : Fin (2 ^ 128))
    (metadata : BoundedVec UInt8 512) : Result := do
  ensureRoot origin
  let assetId := s.nextAssetId
  let asset : RWAAsset :=
    { assetId, name, description, category, usdValueCents, owner, isLocked := false,
      isSold := false, metadata }
  let s := { s with
    assets := insertAt s.assets assetId (some asset)
    nextAssetId := saturatingSucc assetId }
  pure (s.deposit (.assetRegistered assetId name))

def lockForSale (s : State) (origin : Origin AccountId) (assetId : UInt32) : Result := do
  ensureRoot origin
  let s ← s.mutateAsset assetId fun asset => do
    ensure (asset.isLocked = false) (.module .alreadyLocked)
    pure { asset with isLocked := true }
  pure (s.deposit (.assetLocked assetId))

def internalMarkSold (s : State) (assetId : UInt32) : Result :=
  s.mutateAsset assetId fun asset => do
    ensure (asset.isSold = false) (.module .alreadySold)
    pure { asset with isSold := true }

def internalRelease (s : State) (assetId : UInt32) : Result :=
  s.mutateAsset assetId fun asset => pure { asset with isLocked := false }

def markSold (s : State) (origin : Origin AccountId) (assetId : UInt32) : Result := do
  ensureRoot origin
  let s ← internalMarkSold s assetId
  pure (s.deposit (.markedSold assetId))

def releaseAfterRedemption (s : State) (origin : Origin AccountId) (assetId : UInt32) :
    Result := do
  ensureRoot origin
  let s ← s.mutateAsset assetId fun asset => do
    ensure (asset.isLocked = true) (.module .notLocked)
    pure { asset with isLocked := false }
  pure (s.deposit (.assetUnlocked assetId))

def setCompanyInfo (s : State) (origin : Origin AccountId) (name : BoundedVec UInt8 128)
    (disclaimer : BoundedVec UInt8 1024) : Result := do
  ensureRoot origin
  pure { s with company := some { name, disclaimer } }

/-- The calls of the pallet, in the order of their call indices. -/
inductive Call
  | registerAsset (owner : AccountId) (name : BoundedVec UInt8 64)
      (description : BoundedVec UInt8 256) (category : AssetCategory)
      (usdValueCents : Fin (2 ^ 128)) (metadata : BoundedVec UInt8 512)
  | lockForSale (assetId : UInt32)
  | markSold (assetId : UInt32)
  | releaseAfterRedemption (assetId : UInt32)
  | setCompanyInfo (name : BoundedVec UInt8 128) (disclaimer : BoundedVec UInt8 1024)

def dispatch (s : State) (origin : Origin AccountId) : Call → Result
  | .registerAsset owner name description category usdValueCents metadata =>
      registerAsset s origin owner name description category usdValueCents metadata
  | .lockForSale assetId => lockForSale s origin assetId
  | .markSold assetId => markSold s origin assetId
  | .releaseAfterRedemption assetId => releaseAfterRedemption s origin assetId
  | .setCompanyInfo name disclaimer => setCompanyInfo s origin name disclaimer

def isAvailableForSale (s : State) (assetId : UInt32) : Bool :=
  ((s.assets assetId).map fun a => a.isLocked && !a.isSold).getD false

end NullaRelay.RwaParachain.Registry
