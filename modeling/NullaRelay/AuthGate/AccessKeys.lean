import NullaRelay.Foundations.Scale
import NullaRelay.Frame.Dispatch

/-!
# The access-key pallet of AuthGate

Apps and their prices, the access grants that the two proof chains report by
cross-chain calls, and the one use of each grant by whoever reveals its
blinding.
-/

namespace NullaRelay.AuthGate.AccessKeys

open NullaRelay.Frame Scale

/-- `AccountId32`. -/
abbrev AccountId := U8Array 32

structure AppSlot where
  name : BoundedVec UInt8 256
  price : UInt64
  /-- The account on the proof chain that receives the payment. -/
  paymentAccount : U8Array 32
  active : Bool

/-- A grant reported by a proof chain. -/
structure AccessGrant where
  appId : U8Array 32
  nullifier : U8Array 32
  accessKeyCommitment : U8Array 32
  used : Bool

/-- The configuration: the accounts that stand for the two proof chains, and
the hash function. The administrator is root. -/
structure Config where
  proofHubSovereign : AccountId
  proofHubSovereign2 : AccountId
  blake3 : List UInt8 → U8Array 32

inductive Event
  | appSlotRegistered (appId : U8Array 32) (price : UInt64)
  | appSlotUpdated (appId : U8Array 32)
  | accessGrantReceived (txId : U8Array 16) (appId nullifier accessKeyCommitment : U8Array 32)
  | accessKeyUsed (txId : U8Array 16) (appId : U8Array 32)

inductive Error
  | appNotFound
  | appNotActive
  | notProofHubSovereign
  | grantAlreadyRecorded
  | grantNotFound
  | keyAlreadyUsed
  | invalidBlinding
  deriving DecidableEq

structure State where
  appRegistry : U8Array 32 → Option AppSlot
  accessGrants : U8Array 16 → Option AccessGrant
  keyUsed : U8Array 16 → Bool
  events : List Event

def genesis : State :=
  { appRegistry := fun _ => none, accessGrants := fun _ => none, keyUsed := fun _ => false,
    events := [] }

abbrev Result := Except (DispatchError Error) State

def State.deposit (s : State) (e : Event) : State := { s with events := s.events ++ [e] }

variable (cfg : Config)

def listAccessSlot (s : State) (origin : Origin AccountId) (appId : U8Array 32)
    (name : BoundedVec UInt8 256) (price : UInt64) (paymentAccount : U8Array 32) : Result := do
  ensureRoot origin
  let slot : AppSlot := { name, price, paymentAccount, active := true }
  let s := { s with appRegistry := insertAt s.appRegistry appId (some slot) }
  pure (s.deposit (.appSlotRegistered appId price))

def updateAccessSlot (s : State) (origin : Origin AccountId) (appId : U8Array 32)
    (name : Option (BoundedVec UInt8 256)) (price : Option UInt64)
    (paymentAccount : Option (U8Array 32)) (active : Option Bool) : Result := do
  ensureRoot origin
  let slot ← okOr (s.appRegistry appId) (.module .appNotFound)
  let slot : AppSlot :=
    { name := name.getD slot.name
      price := price.getD slot.price
      paymentAccount := paymentAccount.getD slot.paymentAccount
      active := active.getD slot.active }
  let s := { s with appRegistry := insertAt s.appRegistry appId (some slot) }
  pure (s.deposit (.appSlotUpdated appId))

/-- Only the sovereign accounts of the proof chains report grants. -/
def ensureProofHub (origin : Origin AccountId) : Except (DispatchError Error) Unit := do
  let caller ← ensureSigned origin
  ensure (caller = cfg.proofHubSovereign ∨ caller = cfg.proofHubSovereign2)
    (.module .notProofHubSovereign)

def xcmRecordAccessGrant (s : State) (origin : Origin AccountId) (appId nullifier : U8Array 32)
    (txId : U8Array 16) (accessKeyCommitment : U8Array 32) : Result := do
  ensureProofHub cfg origin
  let slot ← okOr (s.appRegistry appId) (.module .appNotFound)
  ensure (slot.active = true) (.module .appNotActive)
  ensure (s.accessGrants txId = none) (.module .grantAlreadyRecorded)
  let grant : AccessGrant := { appId, nullifier, accessKeyCommitment, used := false }
  let s := { s with accessGrants := insertAt s.accessGrants txId (some grant) }
  pure (s.deposit (.accessGrantReceived txId appId nullifier accessKeyCommitment))

def computeAccessKeyCommitment (appId blinding : U8Array 32) : U8Array 32 :=
  cfg.blake3 (byteString "nulla_access_key_v1" ++ appId.toList ++ blinding.toList)

def useAccessKey (s : State) (origin : Origin AccountId) (txId : U8Array 16)
    (blinding : U8Array 32) : Result := do
  let _caller ← ensureSigned origin
  ensure (s.keyUsed txId = false) (.module .keyAlreadyUsed)
  let grant ← okOr (s.accessGrants txId) (.module .grantNotFound)
  ensure (grant.used = false) (.module .keyAlreadyUsed)
  let expected := computeAccessKeyCommitment cfg grant.appId blinding
  ensure (expected = grant.accessKeyCommitment) (.module .invalidBlinding)
  let s := { s with
    accessGrants := insertAt s.accessGrants txId (some { grant with used := true })
    keyUsed := insertAt s.keyUsed txId true }
  pure (s.deposit (.accessKeyUsed txId grant.appId))

/-- The calls of the pallet, in the order of their call indices. -/
inductive Call
  | listAccessSlot (appId : U8Array 32) (name : BoundedVec UInt8 256) (price : UInt64)
      (paymentAccount : U8Array 32)
  | updateAccessSlot (appId : U8Array 32) (name : Option (BoundedVec UInt8 256))
      (price : Option UInt64) (paymentAccount : Option (U8Array 32)) (active : Option Bool)
  | xcmRecordAccessGrant (appId nullifier : U8Array 32) (txId : U8Array 16)
      (accessKeyCommitment : U8Array 32)
  | useAccessKey (txId : U8Array 16) (blinding : U8Array 32)

def dispatch (s : State) (origin : Origin AccountId) : Call → Result
  | .listAccessSlot appId name price paymentAccount =>
      listAccessSlot s origin appId name price paymentAccount
  | .updateAccessSlot appId name price paymentAccount active =>
      updateAccessSlot s origin appId name price paymentAccount active
  | .xcmRecordAccessGrant appId nullifier txId commitment =>
      xcmRecordAccessGrant cfg s origin appId nullifier txId commitment
  | .useAccessKey txId blinding => useAccessKey cfg s origin txId blinding

/-- The origin check that each call starts with. -/
def checkOrigin (origin : Origin AccountId) : Call → Except (DispatchError Error) Unit
  | .listAccessSlot .. | .updateAccessSlot .. => ensureRoot origin
  | .xcmRecordAccessGrant .. => ensureProofHub cfg origin
  | .useAccessKey .. => do
    let _ ← ensureSigned origin
    pure ()

/-- The arguments of each call, after its index byte. -/
def Call.decoder : Decoder Call := do
  let callIndex ← decodeU8
  match callIndex with
  | 0 => Call.listAccessSlot <$> takeBytes 32 <*> decodeBoundedVec decodeU8 256 <*> decodeU64 <*>
      takeBytes 32
  | 1 => Call.updateAccessSlot <$> takeBytes 32 <*>
      decodeOption (decodeBoundedVec decodeU8 256) <*> decodeOption decodeU64 <*>
      decodeOption (takeBytes 32) <*> decodeOption decodeBool
  | 2 => do
    let appId ← takeBytes 32
    let nullifier ← takeBytes 32
    let txId ← takeBytes 16
    let accessKeyCommitment ← takeBytes 32
    pure (.xcmRecordAccessGrant appId nullifier txId accessKeyCommitment)
  | 3 => Call.useAccessKey <$> takeBytes 16 <*> takeBytes 32
  | _ => failure

variable {cfg}

/-- A call that succeeds has passed its origin check. -/
theorem checkOrigin_of_dispatch {s s' : State} {origin : Origin AccountId} {call : Call}
    (h : dispatch cfg s origin call = .ok s') : checkOrigin cfg origin call = .ok () := by
  cases call with
  | listAccessSlot =>
      simp only [dispatch, listAccessSlot, bind_eq_ok] at h
      exact h.choose_spec.1
  | updateAccessSlot =>
      simp only [dispatch, updateAccessSlot, bind_eq_ok] at h
      exact h.choose_spec.1
  | xcmRecordAccessGrant =>
      simp only [dispatch, xcmRecordAccessGrant, bind_eq_ok] at h
      exact h.choose_spec.1
  | useAccessKey =>
      simp only [dispatch, useAccessKey, bind_eq_ok] at h
      obtain ⟨who, hwho, -⟩ := h
      simp [checkOrigin, hwho]

end NullaRelay.AuthGate.AccessKeys
