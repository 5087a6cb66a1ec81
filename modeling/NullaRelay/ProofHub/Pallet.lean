import NullaRelay.Frame.NoteTree
import NullaRelay.ProofHub.Frontier
import NullaRelay.ProofHub.Verifier
import NullaRelay.ProofHub.Wire

/-!
# The proofs pallet of ProofHub

Storage, configuration and calls of the pallet. The first lane keeps notes under
spend tags, with one commitment for withdrawals and relists and another for
purchases; its deposits are disabled, its notes can still be spent. The second
lane keeps the leaves of its notes in an incremental tree and guards spends by
nullifiers. The messages to the other chains are kept in `sent`.
-/

namespace NullaRelay.ProofHub

open NullaRelay.Frame LittleEndian V2

/-- The trait `ProofVerify`. -/
structure ProofVerify where
  verifyCommitment : UInt64 → U8Array 32 → U8Array 32 → Bool
  verifyPurchase : List UInt8 → List UInt8 → Bool
  verifyWithdrawal : List UInt8 → List UInt8 → Bool
  verifyPurchaseProof : List UInt8 → U8Array 32 → U8Array 32 → UInt64 → Bool
  verifyDepositV2 : List UInt8 → UInt64 → U8Array 32 → Bool
  verifySpendV2 : List UInt8 → U8Array 32 → U8Array 32 → U8Array 32 → UInt64 → U8Array 32 →
    U8Array 32 → Bool → Bool
  verifySpendAuthV2 : List UInt8 → List UInt8 → Bool → Bool
  v2InsertLeaf : Frontier → U8Array 32 → Option (Frontier × U8Array 32)
  v2ZeroChangeLeaf : U8Array 32

/-- `RuntimeProofVerifier`: the trait wired to the verifier crate. -/
def runtimeProofVerifier (P : Verifier.Primitives) : ProofVerify where
  verifyCommitment := Verifier.verifyCommitment P
  verifyPurchase := Verifier.verifyPurchase P
  verifyWithdrawal := Verifier.verifyWithdrawal P
  verifyPurchaseProof := Verifier.verifyPurchaseProof P
  verifyDepositV2 := Verifier.verifyDepositV2 P
  verifySpendV2 := Verifier.verifySpendV2 P
  verifySpendAuthV2 := Verifier.verifySpendAuthV2 P
  v2InsertLeaf := V2.v2InsertLeaf (merkleHash2 (poseidonHashes P.blake3))
  v2ZeroChangeLeaf := zeroChangeLeaf (poseidonHashes P.blake3)

/-- The pallet's configuration over account ids `A` and currency ledgers `L`. -/
structure Config (A L : Type) where
  proofVerifier : ProofVerify
  currency : Currency A L
  poolAccount : A
  decodeAccount : List UInt8 → Option A
  blake2_256 : List UInt8 → U8Array 32
  blake3 : List UInt8 → U8Array 32

/-- Configuration of a registered app: its price and the account that is paid. -/
structure AppConfig where
  price : UInt64
  paymentAccount : U8Array 32

inductive Event
  | rwaPurchaseAuthorized (rwaId : U8Array 32) (txId : U8Array 16)
  | changeNoteCreated (changeCommitment changeSpendTag newMerkleRoot : U8Array 32)
  | withdrawCompleted (spendTag : U8Array 32) (txId : U8Array 16)
  | relistInitiated (oldTxId newTxId : U8Array 16) (rwaId : U8Array 32)
  | paymentNoteCreated (paymentCommitment paymentSpendTag newMerkleRoot : U8Array 32)
  | rwaPriceSet (rwaId : U8Array 32) (price : UInt64)
  | accessPurchaseAuthorized (appId : U8Array 32) (txId : U8Array 16)
  | accessPurchaseV2Authorized (appId : U8Array 32) (txId : U8Array 16)
  | accessConfigSet (appId : U8Array 32) (price : UInt64)
  | depositV2Accepted (leaf : U8Array 32) (leafIndex : UInt32) (newRoot : U8Array 32)
      (hintsBlob : BoundedVec UInt8 4096)
  | purchaseV2Authorized (rwaId : U8Array 32) (txId : U8Array 16) (changeLeaf : U8Array 32)
      (changeLeafIndex : UInt32) (newRoot : U8Array 32)
  | withdrawV2Completed (txId : U8Array 16)

inductive Error
  | proofVerificationFailed
  | nullifierAlreadyUsed
  | mlDsaFailed
  | spendTagNotFound
  | spendTagAlreadyUsed
  | rwaPriceNotSet
  | missingChangeOutput
  | invalidOwnershipProof
  | ownershipAlreadyUsed
  | ownershipNotFound
  | buyerInsufficientFunds
  | legacyDisabled
  | treeFullV2
  | rootNotRecent
  | duplicateLeaf
  | accessAppNotConfigured
  deriving DecidableEq

/-- The arguments of `RwaPurchaseDispatch::send`, `RwaPurchaseDispatch::send_transfer`
and `AccessKeyDispatch::send`. -/
inductive Message
  | rwaPurchase (rwaId nullifier spendTag : U8Array 32) (noteValue : UInt64) (txId : U8Array 16)
      (ownershipCommitment : U8Array 32)
  | rwaTransfer (oldTxId : U8Array 16) (newOwnershipCommitment : U8Array 32)
      (newTxId : U8Array 16)
  | accessKey (appId nullifier : U8Array 32) (txId : U8Array 16)
      (accessKeyCommitment : U8Array 32)

/-- The storage of the pallet, the currency ledger, the deposited events and the
messages sent. `frontierV2` holds `FrontierNodesV2` and `LeafCountV2`. -/
structure State (L : Type) where
  nullifierUsed : U8Array 32 → Bool
  merkleRoot : U8Array 32
  currentRoot : U8Array 32
  recentRoots : BoundedVec (U8Array 32) 64
  ownershipCommitments : U8Array 16 → Option (U8Array 32)
  ownershipUsed : U8Array 16 → Bool
  spendTagCommitments : U8Array 32 → Option (U8Array 32)
  spendTagRpCommitments : U8Array 32 → Option (U8Array 32)
  spendTagChangeRpCommitments : U8Array 32 → Option (U8Array 32)
  spendTagUsed : U8Array 32 → Bool
  rwaPrices : U8Array 32 → UInt64
  accessKeyConfigs : U8Array 32 → Option AppConfig
  leaves : BoundedVec (U8Array 32) 1048576
  rootLeafCount : U8Array 32 → UInt32
  commitmentIndex : U8Array 32 → Option UInt32
  frontierV2 : Frontier
  currentRootV2 : U8Array 32
  recentRootsV2 : BoundedVec (U8Array 32) 64
  leafIndexV2 : U8Array 32 → Option UInt32
  ledger : L
  events : List Event
  sent : List Message

/-- The state after the genesis build. -/
def genesis {L : Type} (ledger : L) : State L where
  nullifierUsed _ := false
  merkleRoot := U8Array.zero 32
  currentRoot := U8Array.zero 32
  recentRoots := BoundedVec.empty
  ownershipCommitments _ := none
  ownershipUsed _ := false
  spendTagCommitments _ := none
  spendTagRpCommitments _ := none
  spendTagChangeRpCommitments _ := none
  spendTagUsed _ := false
  rwaPrices _ := 0
  accessKeyConfigs _ := none
  leaves := BoundedVec.empty
  rootLeafCount _ := 0
  commitmentIndex _ := none
  frontierV2 := Frontier.empty
  currentRootV2 := U8Array.zero 32
  recentRootsV2 := BoundedVec.empty
  leafIndexV2 _ := none
  ledger
  events := []
  sent := []

variable {A L : Type} (T : Config A L)

/-- The result of a call. -/
abbrev DispatchResult (α : Type) := Except (DispatchError Error) α

namespace State

def depositEvent (s : State L) (e : Event) : State L := { s with events := s.events ++ [e] }

def send (s : State L) (m : Message) : State L := { s with sent := s.sent ++ [m] }

/-- `v2_root_anchored`: the root is current or recent. -/
def V2RootAnchored (s : State L) (root : U8Array 32) : Prop :=
  root = s.currentRootV2 ∨ root ∈ s.recentRootsV2.val

instance (s : State L) (root : U8Array 32) : Decidable (s.V2RootAnchored root) :=
  inferInstanceAs (Decidable (_ ∨ _))

end State

/-- `do_insert_note`: the note's leaf joins `leaves` and its commitment is
registered under the tag; nothing happens when the commitment is indexed. -/
def doInsertNote (s : State L) (commitment spendTag : U8Array 32) (leaves : List (U8Array 32)) :
    Option (State L × List (U8Array 32)) :=
  if (s.commitmentIndex commitment).isSome then none
  else
    let idx := UInt32.ofNat leaves.length
    some
      ({ s with
          commitmentIndex := insertAt s.commitmentIndex commitment (some idx)
          spendTagCommitments := insertAt s.spendTagCommitments spendTag (some commitment) },
        leaves ++ [NoteTree.leafHash T.blake2_256 commitment])

/-- `commit_merkle` with the root of the leaves; leaves beyond the bound are all
dropped. -/
def commitMerkle (s : State L) (leaves : List (U8Array 32)) : State L :=
  let newRoot := NoteTree.computeMerkleRoot T.blake2_256 leaves
  let bounded : BoundedVec (U8Array 32) 1048576 :=
    if h : leaves.length ≤ 1048576 then ⟨leaves, h⟩ else BoundedVec.empty
  { s with
    leaves := bounded
    currentRoot := newRoot
    merkleRoot := newRoot
    rootLeafCount := insertAt s.rootLeafCount newRoot (UInt32.ofNat bounded.val.length)
    recentRoots := NoteTree.pushRoot s.recentRoots s.currentRoot }

/-- `compute_ownership_commitment`. -/
def computeOwnershipCommitment (rwaId blinding : U8Array 32) : U8Array 32 :=
  T.blake3 (byteString "nulla_rwa_ownership_v1" ++ rwaId.toList ++ blinding.toList)

/-- `v2_insert`: the leaf joins the v2 tree, the previous root becomes recent
unless the tree was empty. -/
def v2Insert (s : State L) (leaf : U8Array 32) : DispatchResult (State L) := do
  ensure (s.leafIndexV2 leaf = none) (.module .duplicateLeaf)
  let (frontier, newRoot) ← okOr (T.proofVerifier.v2InsertLeaf s.frontierV2 leaf)
    (.module .treeFullV2)
  let idx := s.frontierV2.leafCount
  pure { s with
    frontierV2 := frontier
    leafIndexV2 := insertAt s.leafIndexV2 leaf (some idx)
    currentRootV2 := newRoot
    recentRootsV2 :=
      if 0 < idx then NoteTree.pushRoot s.recentRootsV2 s.currentRootV2 else s.recentRootsV2 }

/-- The legacy deposit is disabled. -/
def depositPublic (_s : State L) (origin : Origin A) (_commitment : U8Array 32)
    (_rangeProof : BoundedVec UInt8 65536) (_rpCommitment _spendTag : U8Array 32)
    (_hintsBlob : BoundedVec UInt8 4096) : DispatchResult (State L) := do
  let _ ← ensureSigned origin
  .error (.module .legacyDisabled)

/-- The change note's commitment for purchases, zero where there is no change. -/
def changeRpCommitment (s : State L) (inputs : RwaPurchaseInputs) :
    DispatchResult (U8Array 32) :=
  match inputs.changeSpendTag with
  | some t => okOr (s.spendTagRpCommitments t) (.module .spendTagNotFound)
  | none => .ok (U8Array.zero 32)

/-- The checks that the two v1 purchases start with. -/
def checkNote (s : State L) (inputs : RwaPurchaseInputs) : DispatchResult Unit := do
  ensure (s.nullifierUsed inputs.nullifier = false) (.module .nullifierAlreadyUsed)
  ensure ((s.spendTagCommitments inputs.spendTag).isSome) (.module .spendTagNotFound)
  ensure (s.spendTagUsed inputs.spendTag = false) (.module .spendTagAlreadyUsed)

/-- What the two v1 purchases share once the price is known: both proofs hold,
and the nullifier and the tag are marked. Returned with the state is the change
note's commitment for purchases. -/
def spendTagged (s : State L) (proof publicInputs : List UInt8) (inputs : RwaPurchaseInputs)
    (price : UInt64) : DispatchResult (State L × U8Array 32) := do
  let changeRp ← changeRpCommitment s inputs
  let storedRp ← okOr (s.spendTagRpCommitments inputs.spendTag) (.module .spendTagNotFound)
  ensure (T.proofVerifier.verifyPurchaseProof inputs.purchaseProof storedRp changeRp price)
    (.module .proofVerificationFailed)
  ensure (T.proofVerifier.verifyPurchase proof publicInputs) (.module .mlDsaFailed)
  let s := { s with
    nullifierUsed := insertAt s.nullifierUsed inputs.nullifier true
    spendTagUsed := insertAt s.spendTagUsed inputs.spendTag true }
  pure (s, changeRp)

/-- A note joins the tree, unless its commitment is indexed already. -/
def insertOrKeep (s : State L) (commitment spendTag : U8Array 32) : State L :=
  match doInsertNote T s commitment spendTag s.leaves.val with
  | some (s, leaves) => commitMerkle T s leaves
  | none => s

/-- The change note of a v1 purchase. A commitment that is indexed already is
not registered again. -/
def insertChange (s : State L) (inputs : RwaPurchaseInputs) (changeRp : U8Array 32) : State L :=
  match inputs.changeCommitment, inputs.changeSpendTag with
  | some c, some t =>
      let s := { s with
        spendTagChangeRpCommitments :=
          insertAt s.spendTagChangeRpCommitments t (some changeRp) }
      let s := insertOrKeep T s c t
      s.depositEvent (.changeNoteCreated c t s.currentRoot)
  | _, _ => s

/-- Purchase of an RWA with a v1 note, UNSIGNED. -/
def purchaseRwa (s : State L) (origin : Origin A) (proof publicInputs : List UInt8) :
    DispatchResult (State L) := do
  ensureNone origin
  let inputs ← okOr (RwaPurchaseInputs.decode publicInputs) (.module .proofVerificationFailed)
  checkNote s inputs
  let price := s.rwaPrices inputs.rwaId
  ensure (0 < price) (.module .rwaPriceNotSet)
  let (s, changeRp) ← spendTagged T s proof publicInputs inputs price
  let s := { s with
    ownershipCommitments :=
      insertAt s.ownershipCommitments inputs.txId (some inputs.ownershipCommitment) }
  let s := insertChange T s inputs changeRp
  let s := s.depositEvent (.rwaPurchaseAuthorized inputs.rwaId inputs.txId)
  pure (s.send (.rwaPurchase inputs.rwaId inputs.nullifier inputs.spendTag price inputs.txId
    inputs.ownershipCommitment))

/-- The pool pays `amount` to the account that the bytes encode. -/
def payFromPool (s : State L) (account : List UInt8) (amount : UInt64) :
    DispatchResult (State L) := do
  let dest ← okOr (T.decodeAccount account) (.module .proofVerificationFailed)
  let ledger ← T.currency.transferOrFail s.ledger T.poolAccount dest amount.toNat .allowDeath
  pure { s with ledger }

/-- Withdrawal of a v1 note to public balance, UNSIGNED; the note's commitment is
opened. -/
def withdrawPrivate (s : State L) (origin : Origin A) (proof publicInputs : List UInt8) :
    DispatchResult (State L) := do
  ensureNone origin
  let inputs ← okOr (WithdrawInputs.decode publicInputs) (.module .proofVerificationFailed)
  ensure ((s.spendTagCommitments inputs.spendTag).isSome) (.module .spendTagNotFound)
  ensure (s.spendTagUsed inputs.spendTag = false) (.module .spendTagAlreadyUsed)
  ensure (T.proofVerifier.verifyWithdrawal proof publicInputs) (.module .mlDsaFailed)
  let stored ← okOr (s.spendTagCommitments inputs.spendTag) (.module .spendTagNotFound)
  ensure (T.proofVerifier.verifyCommitment inputs.noteValue inputs.noteBlinding stored)
    (.module .proofVerificationFailed)
  let s := { s with spendTagUsed := insertAt s.spendTagUsed inputs.spendTag true }
  ensure (inputs.destination.length = 32) (.module .proofVerificationFailed)
  let s ← payFromPool T s inputs.destination inputs.noteValue
  pure (s.depositEvent (.withdrawCompleted inputs.spendTag inputs.txId))

/-- The change output of a relist, required when the buyer's note exceeds the
price: its commitment opens to the difference. -/
def checkRelistChange (inputs : RelistInputs) : DispatchResult (Option (U8Array 32 × U8Array 32)) :=
  let changeAmount := inputs.buyerValue - inputs.price
  if 0 < changeAmount then
    match inputs.changeCommitment, inputs.changeSpendTag, inputs.changeValue,
      inputs.changeBlinding with
    | some c, some t, some v, some b => do
        ensure (v = changeAmount) (.module .proofVerificationFailed)
        ensure (T.proofVerifier.verifyCommitment v b c) (.module .proofVerificationFailed)
        pure (some (c, t))
    | _, _, _, _ => .error (.module .missingChangeOutput)
  else .ok none

/-- The change note of a relist, after the payment note. -/
def insertRelistChange (s : State L) (change : Option (U8Array 32 × U8Array 32))
    (leaves : List (U8Array 32)) : State L :=
  match change with
  | some (c, t) =>
      match doInsertNote T s c t leaves with
      | some (s, leaves) =>
          let s := commitMerkle T s leaves
          s.depositEvent (.changeNoteCreated c t s.currentRoot)
      | none => commitMerkle T s leaves
  | none => commitMerkle T s leaves

/-- Private transfer of an ownership record, UNSIGNED and without a signature:
the opening of the record is the reseller's authorization, the opening of the
buyer's note pays. -/
def relistPrivate (s : State L) (origin : Origin A) (inputs : RelistInputs) :
    DispatchResult (State L) := do
  ensureNone origin
  let storedOc ← okOr (s.ownershipCommitments inputs.oldTxId) (.module .ownershipNotFound)
  ensure (s.ownershipUsed inputs.oldTxId = false) (.module .ownershipAlreadyUsed)
  ensure (computeOwnershipCommitment T inputs.rwaId inputs.ownershipBlinding = storedOc)
    (.module .invalidOwnershipProof)
  ensure ((s.spendTagCommitments inputs.newBuyerSpendTag).isSome) (.module .spendTagNotFound)
  ensure (s.spendTagUsed inputs.newBuyerSpendTag = false) (.module .spendTagAlreadyUsed)
  let buyerStored ← okOr (s.spendTagCommitments inputs.newBuyerSpendTag)
    (.module .spendTagNotFound)
  ensure (T.proofVerifier.verifyCommitment inputs.buyerValue inputs.buyerBlinding buyerStored)
    (.module .proofVerificationFailed)
  ensure (inputs.price ≤ inputs.buyerValue) (.module .buyerInsufficientFunds)
  let change ← checkRelistChange T inputs
  ensure (T.proofVerifier.verifyCommitment inputs.price inputs.paymentBlinding
    inputs.paymentCommitment) (.module .proofVerificationFailed)
  let s := { s with
    ownershipUsed := insertAt s.ownershipUsed inputs.oldTxId true
    spendTagUsed := insertAt s.spendTagUsed inputs.newBuyerSpendTag true }
  let (s, leaves) ← okOr (doInsertNote T s inputs.paymentCommitment inputs.paymentSpendTag
    s.leaves.val) (.module .proofVerificationFailed)
  let s := insertRelistChange T s change leaves
  let s := { s with
    ownershipCommitments :=
      insertAt s.ownershipCommitments inputs.newTxId (some inputs.newOwnershipCommitment) }
  let s := s.depositEvent (.paymentNoteCreated inputs.paymentCommitment inputs.paymentSpendTag
    s.currentRoot)
  let s := s.depositEvent (.relistInitiated inputs.oldTxId inputs.newTxId inputs.rwaId)
  pure (s.send (.rwaTransfer inputs.oldTxId inputs.newOwnershipCommitment inputs.newTxId))

/-- Sets the price of an RWA (sudo only); zero takes it off the market. -/
def setRwaPrice (s : State L) (origin : Origin A) (rwaId : U8Array 32) (price : UInt64) :
    DispatchResult (State L) := do
  ensureRoot origin
  let s := { s with rwaPrices := insertAt s.rwaPrices rwaId price }
  pure (s.depositEvent (.rwaPriceSet rwaId price))

/-- Sets the configuration of an app (sudo only). -/
def setAccessConfig (s : State L) (origin : Origin A) (appId : U8Array 32) (price : UInt64)
    (paymentAccount : U8Array 32) : DispatchResult (State L) := do
  ensureRoot origin
  let cfg : AppConfig := { price, paymentAccount }
  let s := { s with accessKeyConfigs := insertAt s.accessKeyConfigs appId (some cfg) }
  pure (s.depositEvent (.accessConfigSet appId price))

/-- The configuration of an app that is on sale. -/
def appConfig (s : State L) (appId : U8Array 32) : DispatchResult AppConfig := do
  let cfg ← okOr (s.accessKeyConfigs appId) (.module .accessAppNotConfigured)
  ensure (0 < cfg.price) (.module .accessAppNotConfigured)
  pure cfg

/-- Purchase of access with a v1 note, UNSIGNED; the field `rwaId` carries the
app and `ownershipCommitment` the access key commitment. -/
def purchaseAccess (s : State L) (origin : Origin A) (proof publicInputs : List UInt8) :
    DispatchResult (State L) := do
  ensureNone origin
  let inputs ← okOr (RwaPurchaseInputs.decode publicInputs) (.module .proofVerificationFailed)
  checkNote s inputs
  let appId := inputs.rwaId
  let cfg ← appConfig s appId
  let (s, changeRp) ← spendTagged T s proof publicInputs inputs cfg.price
  let s := insertChange T s inputs changeRp
  let s ← payFromPool T s cfg.paymentAccount.toList cfg.price
  let s := s.depositEvent (.accessPurchaseAuthorized appId inputs.txId)
  pure (s.send (.accessKey appId inputs.nullifier inputs.txId inputs.ownershipCommitment))

/-- The checks that the v2 spends start with. -/
def checkNullifier (s : State L) (nullifier merkleRoot : U8Array 32) : DispatchResult Unit := do
  ensure (s.nullifierUsed nullifier = false) (.module .nullifierAlreadyUsed)
  ensure (s.V2RootAnchored merkleRoot) (.module .rootNotRecent)

/-- What the v2 spends share once the amount is known: the signature and the
spend proof hold, for the key that `auth` starts with, and the nullifier is
marked. -/
def spendV2 (s : State L) (auth publicInputs spendProof : List UInt8)
    (merkleRoot nullifier : U8Array 32) (priceOrAmount : UInt64)
    (changeLeaf changePkd : U8Array 32) (withdraw : Bool) : DispatchResult (State L) := do
  ensure (T.proofVerifier.verifySpendAuthV2 auth publicInputs withdraw) (.module .mlDsaFailed)
  ensure (1312 ≤ auth.length) (.module .mlDsaFailed)
  let pkd := pkDigest T.blake3 (auth.take 1312)
  ensure (T.proofVerifier.verifySpendV2 spendProof merkleRoot nullifier pkd priceOrAmount
    changeLeaf changePkd (!withdraw)) (.module .proofVerificationFailed)
  pure { s with nullifierUsed := insertAt s.nullifierUsed nullifier true }

/-- Purchase of access with a v2 note, UNSIGNED. -/
def purchaseAccessV2 (s : State L) (origin : Origin A) (auth publicInputs spendProof :
    List UInt8) : DispatchResult (State L) := do
  ensureNone origin
  let inputs ← okOr (SpendPublicV2.decode publicInputs) (.module .proofVerificationFailed)
  checkNullifier s inputs.nullifier inputs.merkleRoot
  let appId := inputs.rwaId
  let cfg ← appConfig s appId
  let s ← spendV2 T s auth publicInputs spendProof inputs.merkleRoot inputs.nullifier cfg.price
    inputs.changeLeaf inputs.changePkd false
  let s ← v2Insert T s inputs.changeLeaf
  let s ← payFromPool T s cfg.paymentAccount.toList cfg.price
  let s := s.depositEvent (.accessPurchaseV2Authorized appId inputs.txId)
  pure (s.send (.accessKey appId inputs.nullifier inputs.txId inputs.ownershipCommitment))

/-- Deposit of a v2 note. SIGNED: the depositor pays `amount` into the pool. -/
def depositV2 (s : State L) (origin : Origin A) (leaf : U8Array 32) (amount : UInt64)
    (depositProof : BoundedVec UInt8 65536) (hintsBlob : BoundedVec UInt8 4096) :
    DispatchResult (State L) := do
  let who ← ensureSigned origin
  ensure (T.proofVerifier.verifyDepositV2 depositProof.val amount leaf)
    (.module .proofVerificationFailed)
  let ledger ← T.currency.transferOrFail s.ledger who T.poolAccount amount.toNat .keepAlive
  let leafIndex := s.frontierV2.leafCount
  let s ← v2Insert T { s with ledger } leaf
  pure (s.depositEvent (.depositV2Accepted leaf leafIndex s.currentRootV2 hintsBlob))

/-- Purchase of an RWA with a v2 note, UNSIGNED. -/
def purchaseRwaV2 (s : State L) (origin : Origin A) (auth publicInputs spendProof :
    List UInt8) : DispatchResult (State L) := do
  ensureNone origin
  let inputs ← okOr (SpendPublicV2.decode publicInputs) (.module .proofVerificationFailed)
  checkNullifier s inputs.nullifier inputs.merkleRoot
  let price := s.rwaPrices inputs.rwaId
  ensure (0 < price) (.module .rwaPriceNotSet)
  let s ← spendV2 T s auth publicInputs spendProof inputs.merkleRoot inputs.nullifier price
    inputs.changeLeaf inputs.changePkd false
  let changeLeafIndex := s.frontierV2.leafCount
  let s ← v2Insert T s inputs.changeLeaf
  let s := { s with
    ownershipCommitments :=
      insertAt s.ownershipCommitments inputs.txId (some inputs.ownershipCommitment) }
  let s := s.depositEvent (.purchaseV2Authorized inputs.rwaId inputs.txId inputs.changeLeaf
    changeLeafIndex s.currentRootV2)
  -- the spend tag is the nullifier again
  pure (s.send (.rwaPurchase inputs.rwaId inputs.nullifier inputs.nullifier price inputs.txId
    inputs.ownershipCommitment))

/-- Withdrawal of a v2 note, UNSIGNED; the circuit enforces the amount and leaves
no change. -/
def withdrawV2 (s : State L) (origin : Origin A) (auth publicInputs spendProof : List UInt8) :
    DispatchResult (State L) := do
  ensureNone origin
  let inputs ← okOr (WithdrawPublicV2.decode publicInputs) (.module .proofVerificationFailed)
  checkNullifier s inputs.nullifier inputs.merkleRoot
  let s ← spendV2 T s auth publicInputs spendProof inputs.merkleRoot inputs.nullifier
    inputs.amount T.proofVerifier.v2ZeroChangeLeaf (U8Array.zero 32) true
  let s ← payFromPool T s inputs.destination.toList inputs.amount
  pure (s.depositEvent (.withdrawV2Completed inputs.txId))

/-- The calls of the pallet. -/
inductive Call
  | depositPublic (commitment : U8Array 32) (rangeProof : BoundedVec UInt8 65536)
      (rpCommitment spendTag : U8Array 32) (hintsBlob : BoundedVec UInt8 4096)
  | purchaseRwa (proof publicInputs : List UInt8)
  | withdrawPrivate (proof publicInputs : List UInt8)
  | relistPrivate (inputs : RelistInputs)
  | setRwaPrice (rwaId : U8Array 32) (price : UInt64)
  | setAccessConfig (appId : U8Array 32) (price : UInt64) (paymentAccount : U8Array 32)
  | purchaseAccess (proof publicInputs : List UInt8)
  | purchaseAccessV2 (auth publicInputs spendProof : List UInt8)
  | depositV2 (leaf : U8Array 32) (amount : UInt64) (depositProof : BoundedVec UInt8 65536)
      (hintsBlob : BoundedVec UInt8 4096)
  | purchaseRwaV2 (auth publicInputs spendProof : List UInt8)
  | withdrawV2 (auth publicInputs spendProof : List UInt8)

def dispatch (s : State L) (origin : Origin A) : Call → DispatchResult (State L)
  | .depositPublic c rp rpc t hints => depositPublic s origin c rp rpc t hints
  | .purchaseRwa p pi => purchaseRwa T s origin p pi
  | .withdrawPrivate p pi => withdrawPrivate T s origin p pi
  | .relistPrivate inputs => relistPrivate T s origin inputs
  | .setRwaPrice id price => setRwaPrice s origin id price
  | .setAccessConfig id price acc => setAccessConfig s origin id price acc
  | .purchaseAccess p pi => purchaseAccess T s origin p pi
  | .purchaseAccessV2 auth pi p => purchaseAccessV2 T s origin auth pi p
  | .depositV2 leaf amount p hints => depositV2 T s origin leaf amount p hints
  | .purchaseRwaV2 auth pi p => purchaseRwaV2 T s origin auth pi p
  | .withdrawV2 auth pi p => withdrawV2 T s origin auth pi p

/-- A call with its origin. -/
abbrev Extrinsic (A : Type) := Origin A × Call

/-- One step of the chain. -/
def apply (s : State L) (x : Extrinsic A) : DispatchResult (State L) := dispatch T s x.1 x.2

end NullaRelay.ProofHub
