import NullaRelay.ScanProof.Pallet

/-!
# Admission of unsigned calls to ScanProof

`validateUnsigned` is what the transaction pool and, before dispatch, the block
execution check of an unsigned call. An extrinsic is a signed, an unsigned or a
root call, and `apply` is one step of the chain: the step fails, and changes
nothing, when the admission or the dispatch fails.
-/

namespace NullaRelay.ScanProof

open NullaRelay.Frame Scale

inductive InvalidTransaction
  | call
  | stale
  | badProof
  | badMandatory
  | exhaustsResources
  deriving DecidableEq

/-- The data of an admitted transaction: the encoded tags it provides, its
priority, its longevity and whether it propagates. -/
structure ValidTransaction where
  provides : List (List UInt8)
  priority : UInt64
  longevity : UInt64
  propagate : Bool

/-- A tag of `with_tag_prefix(..).and_provides(..)`: the encoded pair. -/
def providesTag (tagPrefix : String) (value : List UInt8) : List UInt8 :=
  encodeVec (fun b => [b]) (byteString tagPrefix) ++ value

/-- `ValidTransaction::with_tag_prefix(..)` with the values provided. -/
def validTransaction (tagPrefix : String) (values : List (List UInt8)) (longevity : UInt64) :
    ValidTransaction where
  provides := values.map (providesTag tagPrefix)
  priority := 100
  longevity
  propagate := true

variable {A L : Type} (T : Config A L)

abbrev TransactionValidity := Except InvalidTransaction ValidTransaction

def validateSubmitProof (s : State L) (proof : List UInt8)
    (rangeProof : BoundedVec UInt8 T.maxRangeProofSize) (publicInputs : List UInt8) :
    TransactionValidity := do
  ensure (proof.length ≤ T.maxProofSize) .exhaustsResources
  ensure (rangeProof.val.length ≤ T.maxRangeProofSize) .exhaustsResources
  let inputs ← okOr (ProofPublicInputs.decode publicInputs) .call
  ensure (inputs.merkleRoot = s.currentRoot ∨ inputs.merkleRoot ∈ s.recentRoots.val) .stale
  ensure (inputs.nullifiers.length = inputs.inputCommitments.length) .badMandatory
  ensure (inputs.inputIndices.length = inputs.inputCommitments.length) .badMandatory
  ensure inputs.nullifiers.Nodup .badMandatory
  ensure (∀ n ∈ inputs.nullifiers, s.nullifierUsed n = false) .stale
  pure (validTransaction "ProofSubmission"
    [inputs.txId.toList, encodeVec List.Vector.toList inputs.nullifiers] 64)

/-- The checks of the two note purchases after the price lookup. -/
def validateOpening (inputCommitment : U8Array 32) (openingProof : List UInt8)
    (nullifier id : U8Array 32) (txId : U8Array 16) (price : UInt64)
    (change : Option (U8Array 32)) (tagPrefix : String) : TransactionValidity := do
  ensure (openingProof.length = 64) .badProof
  let effective ← okOr (effectiveCommitment T inputCommitment change) .badProof
  ensure (T.proofVerifier.verifyOpeningKnowledge price effective openingProof
    (purchaseBinding nullifier id txId change)) .badProof
  pure (validTransaction tagPrefix
    [txId.toList, nullifier.toList, inputCommitment.toList] 64)

def validatePurchaseRwa (s : State L) (inputCommitment : U8Array 32) (openingProof : List UInt8)
    (nullifier rwaId : U8Array 32) (txId : U8Array 16) (change : Option (U8Array 32)) :
    TransactionValidity := do
  ensure (s.nullifierUsed nullifier = false) .stale
  ensure ((s.commitmentIndex inputCommitment).isSome) .badMandatory
  let price := s.rwaPrices rwaId
  ensure (price ≠ 0) .call
  validateOpening T inputCommitment openingProof nullifier rwaId txId price change
    "ScanRwaPurchase"

def validatePurchaseAccess (s : State L) (inputCommitment : U8Array 32)
    (openingProof : List UInt8) (nullifier appId : U8Array 32) (txId : U8Array 16)
    (change : Option (U8Array 32)) : TransactionValidity := do
  ensure (s.nullifierUsed nullifier = false) .stale
  ensure ((s.commitmentIndex inputCommitment).isSome) .badMandatory
  let cfg ← okOr ((s.accessKeyConfigs appId).filter fun c => 0 < c.price) .call
  validateOpening T inputCommitment openingProof nullifier appId txId cfg.price change
    "ScanAccessPurchase"

def validateWithdrawPrivate (s : State L) (commitment nullifier : U8Array 32)
    (openingProof : List UInt8) (value : UInt64) : TransactionValidity := do
  ensure (s.nullifierUsed nullifier = false) .stale
  ensure ((s.commitmentIndex commitment).isSome) .badMandatory
  ensure (openingProof.length = 64) .badProof
  let binding := nullifier.toList ++ commitment.toList
  ensure (T.proofVerifier.verifyOpeningKnowledge value commitment openingProof binding) .badProof
  pure (validTransaction "ScanWithdraw" [nullifier.toList] (UInt64.ofNat (2 ^ 64 - 1)))

/-- The checks of the coin calls: the serial is fresh and the group exists. -/
def validateCoin (s : State L) (groupId : UInt32) (serial : U8Array 32) (txId : U8Array 16)
    (tagPrefix : String) : TransactionValidity := do
  ensure (s.serialUsed serial = false) .stale
  ensure ((s.coinGroups groupId).isSome) .badMandatory
  pure (validTransaction tagPrefix [txId.toList, serial.toList] 64)

def validateCoinSpend (s : State L) (publicInputs : List UInt8) (tagPrefix : String) :
    TransactionValidity := do
  let inputs ← okOr (CoinSpendPublic.decode publicInputs) .call
  validateCoin s inputs.groupId inputs.serial inputs.txId tagPrefix

def validateCoinWithdraw (s : State L) (publicInputs : List UInt8) : TransactionValidity := do
  let inputs ← okOr (CoinWithdrawPublic.decode publicInputs) .call
  validateCoin s inputs.groupId inputs.serial inputs.txId "ScanCoinWithdraw"

def validateUnsigned (s : State L) : Call T.maxRangeProofSize → TransactionValidity
  | .submitProof p rp pi _ => validateSubmitProof T s p rp pi
  | .purchaseRwa c p n id tx _ change => validatePurchaseRwa T s c p n id tx change
  | .withdrawPrivate c n p _ v => validateWithdrawPrivate T s c n p v
  | .purchaseCoin pi _ _ => validateCoinSpend s pi "ScanCoinPurchase"
  | .withdrawCoin pi _ => validateCoinWithdraw s pi
  | .purchaseAccess c p n id tx _ change => validatePurchaseAccess T s c p n id tx change
  | .purchaseAccessCoin pi _ _ => validateCoinSpend s pi "ScanAccessCoinPurchase"
  | _ => .error .call

inductive Extrinsic (A : Type) (R : ℕ)
  | signed (who : A) (call : Call R)
  | unsigned (call : Call R)
  | root (call : Call R)

def Extrinsic.call {R : ℕ} : Extrinsic A R → Call R
  | .signed _ c => c
  | .unsigned c => c
  | .root c => c

def Extrinsic.origin {R : ℕ} : Extrinsic A R → Origin A
  | .signed who _ => .signed who
  | .unsigned _ => .none
  | .root _ => .root

/-- Why an extrinsic had no effect. -/
inductive Rejection
  | invalid (reason : InvalidTransaction)
  | failed (error : DispatchError Error)

/-- One extrinsic: an unsigned call passes `validateUnsigned` first, as
`pre_dispatch` does. -/
def apply (s : State L) (x : Extrinsic A T.maxRangeProofSize) : Except Rejection (State L) := do
  match x with
  | .unsigned c =>
      let _ ← (validateUnsigned T s c).mapError .invalid
  | _ => pure ()
  (dispatch T s x.origin x.call).mapError .failed

variable {T}

/-- An extrinsic that succeeds is a dispatched call, admitted when unsigned. -/
theorem apply_eq_ok {s s' : State L} {x : Extrinsic A T.maxRangeProofSize} :
    apply T s x = .ok s' ↔
      (∀ c, x = .unsigned c → ∃ v, validateUnsigned T s c = .ok v) ∧
        dispatch T s x.origin x.call = .ok s' := by
  cases x <;> simp [apply]

end NullaRelay.ScanProof
