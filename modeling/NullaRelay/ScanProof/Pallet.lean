import NullaRelay.Frame.NoteTree
import NullaRelay.ScanProof.OneOfMany

/-!
# The proofs pallet of ScanProof

Storage, configuration and calls of the pallet. Two lanes share it: notes are
Pedersen commitments named by their spender and guarded by a nullifier set, and
coins are spent from groups by one-of-many proofs and guarded by their serials.
The proof verifier, the currency and the account encoding are the pallet's
configuration; the messages to the other chains are kept in `sent`.
-/

namespace NullaRelay.ScanProof

open NullaRelay.Frame LittleEndian

/-- The trait `ProofVerify`. -/
structure ProofVerify where
  verify : List UInt8 → List UInt8 → Bool
  verifyCommitment : UInt64 → U8Array 32 → U8Array 32 → Bool
  verifyOpeningKnowledge : UInt64 → U8Array 32 → List UInt8 → List UInt8 → Bool
  verifyRangeProof : List UInt8 → List (U8Array 32) → List UInt8 → UInt32 → Bool
  pedersenSubtract : U8Array 32 → U8Array 32 → Option (U8Array 32)
  verifyOneOfMany : List UInt8 → List (U8Array 32) → U8Array 32 → UInt64 → U8Array 32 →
    List UInt8 → Bool
  verifyDepositOpen : U8Array 32 → UInt64 → List UInt8 → List UInt8 → Bool
  verifyG1Pok : U8Array 32 → U8Array 32 → List UInt8 → List UInt8 → Bool
  padGroup : List (U8Array 32) → UInt32 → List (U8Array 32)

/-- `RuntimeProofVerifier`: the trait wired to the verifier crate. -/
def runtimeProofVerifier {V : Type} [AddCommGroup V] [Module Scalar V] [DecidableEq V]
    (P : Verifier.Primitives V) : ProofVerify where
  verify := Verifier.verifyBytes P
  verifyCommitment := Verifier.verifyCommitment P
  verifyOpeningKnowledge := Verifier.verifyOpeningKnowledge P
  verifyRangeProof := Verifier.verifyRangeProof P
  pedersenSubtract := Verifier.pedersenSubtract P
  verifyOneOfMany := OneOfMany.verify P
  verifyDepositOpen := OneOfMany.verifyDepositOpen P
  verifyG1Pok := OneOfMany.verifyG1Pok P
  padGroup := OneOfMany.padGroup P

/-- The pallet's configuration over account ids `A` and currency ledgers `L`.
No byte vector is longer than `isize::MAX` of the 32-bit runtime target. -/
structure Config (A L : Type) where
  proofVerifier : ProofVerify
  currency : Currency A L
  maxProofSize : ℕ
  maxRangeProofSize : ℕ
  maxOutputs : ℕ
  poolAccount : A
  encodeAccount : A → List UInt8
  decodeAccount : List UInt8 → Option A
  blake2_256 : List UInt8 → U8Array 32
  usizeBits : ℕ
  usizeBits_ge : 32 ≤ usizeBits
  maxRangeProofSize_lt : maxRangeProofSize < 2 ^ 31

/-- Configuration of a registered app: its price and the account that is paid. -/
structure AppConfig where
  price : UInt64
  paymentAccount : U8Array 32

inductive Event
  | proofAccepted (txId : U8Array 16) (newMerkleRoot : U8Array 32) (outputs : List (U8Array 32))
      (hintsBlob : BoundedVec UInt8 4096)
  | proofRejected
  | depositAccepted (commitment newMerkleRoot : U8Array 32) (hintsBlob : BoundedVec UInt8 4096)
  | rwaPurchaseAuthorized (rwaId : U8Array 32) (txId : U8Array 16)
  | rwaPriceSet (rwaId : U8Array 32) (price : UInt64)
  | accessPurchaseAuthorized (appId : U8Array 32) (txId : U8Array 16)
  | accessConfigSet (appId : U8Array 32) (price : UInt64)
  | withdrawCompleted (nullifier : U8Array 32) (destination : List UInt8) (amount : UInt64)
  | coinDeposited (coin : U8Array 32) (groupId indexInGroup : UInt32)
  | coinPurchaseAuthorized (rwaId : U8Array 32) (txId : U8Array 16) (groupId : UInt32)
      (changeCoin : U8Array 32)
  | coinWithdrawCompleted (txId : U8Array 16) (amount : UInt64)

inductive Error
  | proofVerificationFailed
  | nullifierAlreadyUsed
  | proofTooLarge
  | rangeProofTooLarge
  | treeFull
  | rwaPriceNotSet
  | noteValueMismatch
  | openingProofInvalid
  | commitmentNotFound
  | serialAlreadyUsed
  | groupNotFound
  | duplicateCoin
  | oneOfManyInvalid
  | changeMismatch
  | accessAppNotConfigured
  deriving DecidableEq

/-- The arguments of `RwaPurchaseDispatch::send` and `AccessKeyDispatch::send`. -/
inductive Message
  | rwaPurchase (rwaId nullifier spendTag : U8Array 32) (noteValue : UInt64) (txId : U8Array 16)
      (ownershipCommitment : U8Array 32)
  | accessKey (appId nullifier : U8Array 32) (txId : U8Array 16)
      (accessKeyCommitment : U8Array 32)

/-- The storage of the pallet, the currency ledger, the deposited events and the
messages sent. -/
structure State (L : Type) where
  nullifierUsed : U8Array 32 → Bool
  merkleRoot : U8Array 32
  currentRoot : U8Array 32
  recentRoots : BoundedVec (U8Array 32) 64
  leaves : BoundedVec (U8Array 32) 1048576
  rootLeafCount : U8Array 32 → UInt32
  commitmentIndex : U8Array 32 → Option UInt32
  rwaPrices : U8Array 32 → UInt64
  accessKeyConfigs : U8Array 32 → Option AppConfig
  coinGroups : UInt32 → Option (BoundedVec (U8Array 32) 1024)
  currentGroup : UInt32
  serialUsed : U8Array 32 → Bool
  coinLocation : U8Array 32 → Option (UInt32 × UInt32)
  ledger : L
  events : List Event
  sent : List Message

/-- The state after the genesis build. -/
def genesis {L : Type} (ledger : L) : State L where
  nullifierUsed _ := false
  merkleRoot := U8Array.zero 32
  currentRoot := U8Array.zero 32
  recentRoots := BoundedVec.empty
  leaves := BoundedVec.empty
  rootLeafCount _ := 0
  commitmentIndex _ := none
  rwaPrices _ := 0
  accessKeyConfigs _ := none
  coinGroups _ := none
  currentGroup := 0
  serialUsed _ := false
  coinLocation _ := none
  ledger
  events := []
  sent := []

variable {A L : Type} (T : Config A L)

/-- The result of a call. -/
abbrev DispatchResult (α : Type) := Except (DispatchError Error) α

namespace State

variable {T}

def depositEvent (s : State L) (e : Event) : State L := { s with events := s.events ++ [e] }

def send (s : State L) (m : Message) : State L := { s with sent := s.sent ++ [m] }

/-- `CoinGroups::get`, the empty group where nothing is stored. -/
def coinGroup (s : State L) (gid : UInt32) : BoundedVec (U8Array 32) 1024 :=
  (s.coinGroups gid).getD BoundedVec.empty

end State

def hash2 (left right : U8Array 32) : U8Array 32 := NoteTree.hash2 T.blake2_256 left right

def leafHash (commitment : U8Array 32) : U8Array 32 := NoteTree.leafHash T.blake2_256 commitment

def computeMerkleRoot (leaves : List (U8Array 32)) : U8Array 32 :=
  NoteTree.computeMerkleRoot T.blake2_256 leaves

/-- What every writer of `Leaves` does next: the new root becomes current and
the previous one recent. -/
def updateRoot (s : State L) (leaves : BoundedVec (U8Array 32) 1048576) : State L :=
  let computedRoot := computeMerkleRoot T leaves.val
  let leafCount := UInt32.ofNat leaves.val.length
  { s with
    leaves
    currentRoot := computedRoot
    merkleRoot := computedRoot
    rootLeafCount := insertAt s.rootLeafCount computedRoot leafCount
    recentRoots := NoteTree.pushRoot s.recentRoots s.currentRoot }

/-- The new leaf of a commitment, pushed and indexed. -/
def pushLeaf (s : State L) (c : U8Array 32) : DispatchResult (State L) := do
  let idx := UInt32.ofNat s.leaves.val.length
  let leaves ← okOr (s.leaves.tryPush (leafHash T c)) (.module .treeFull)
  pure { s with leaves, commitmentIndex := insertAt s.commitmentIndex c (some idx) }

/-- A single commitment enters the tree. -/
def insertNote (s : State L) (c : U8Array 32) : DispatchResult (State L) := do
  ensure (s.leaves.val.length < 1048576) (.module .treeFull)
  let s ← pushLeaf T s c
  pure (updateRoot T s s.leaves)

/-- `usize` arithmetic of the runtime target wraps. -/
def wrap (n : ℕ) : ℕ := n % 2 ^ T.usizeBits

/-- `&bytes[start..end]`: a panic when the range is reversed or out of bounds. -/
def slice (bytes : List UInt8) (start stop : ℕ) : DispatchResult (List UInt8) :=
  if start ≤ stop ∧ stop ≤ bytes.length then .ok ((bytes.take stop).drop start)
  else .error .trap

/-- The length field `proof_len` of the range-proof bytes. -/
def proofLength (rp : List UInt8) : ℕ := leNat ((rp.drop 1).take 4)

/-- The wire format `[1][proof_len: u32][proof][amount: u64]` of a deposit:
the range proof and the amount. -/
def parseDeposit (rp : List UInt8) : DispatchResult (List UInt8 × UInt64) := do
  ensure (13 ≤ rp.length) (.module .proofVerificationFailed)
  ensure (rp.head? = some 1) (.module .proofVerificationFailed)
  let proofLen := proofLength rp
  ensure (wrap T (wrap T (5 + proofLen) + 8) ≤ rp.length) (.module .proofVerificationFailed)
  let bpBytes ← slice rp 5 (wrap T (5 + proofLen))
  let amtBytes ← (List.range 8).mapM fun k =>
    okOr (rp[wrap T (wrap T (5 + proofLen) + k)]?) DispatchError.trap
  pure (bpBytes, UInt64.ofNat (leNat amtBytes))

/-- Deposit of a note. SIGNED: the depositor pays the amount in the trailing
field of the range-proof bytes into the pool. -/
def depositPublic (s : State L) (origin : Origin A) (commitment : List UInt8)
    (rangeProof : BoundedVec UInt8 T.maxRangeProofSize) (hintsBlob : BoundedVec UInt8 4096) :
    DispatchResult (State L) := do
  let who ← ensureSigned origin
  let cArr ← okOr (copyFromSlice 32 commitment) (.module .proofVerificationFailed)
  let (bpBytes, amtU64) ← parseDeposit T rangeProof.val
  ensure (T.proofVerifier.verifyRangeProof bpBytes [cArr] [] 64)
    (.module .proofVerificationFailed)
  let ledger ← T.currency.transferOrFail s.ledger who T.poolAccount amtU64.toNat .keepAlive
  ensure (s.commitmentIndex cArr = none) (.module .proofVerificationFailed)
  let s ← insertNote T { s with ledger } cArr
  pure (s.depositEvent (.depositAccepted cArr s.currentRoot hintsBlob))

/-- The keys are marked as used, one after the other. -/
def markAll (used : U8Array 32 → Bool) (keys : List (U8Array 32)) : U8Array 32 → Bool :=
  keys.foldl (fun used k => insertAt used k true) used

/-- The node that a leaf and its siblings fold to, bit by bit of the index. -/
def pathRoot (node : U8Array 32) (idx : ℕ) : List (U8Array 32) → U8Array 32
  | [] => node
  | sib :: path =>
      let parent := if idx % 2 = 0 then hash2 T node sib else hash2 T sib node
      pathRoot parent (idx / 2) path

/-- The membership check of input `i`: by its path when one is given, by the
index of the commitment otherwise. -/
def inputAnchored (s : State L) (inputs : ProofPublicInputs) (i : ℕ) (c : U8Array 32) : Bool :=
  match inputs.inputPaths[i]?, inputs.inputIndices[i]? with
  | some (sib :: path), some idx =>
      pathRoot T (leafHash T c) idx.toNat (sib :: path) = inputs.merkleRoot
  | _, _ =>
      match s.commitmentIndex c with
      | some idx => idx < s.rootLeafCount inputs.merkleRoot
      | none => false

/-- A private transfer: input notes are spent and new notes inserted. -/
def submitProof (s : State L) (origin : Origin A) (proof : List UInt8)
    (rangeProof : BoundedVec UInt8 T.maxRangeProofSize) (publicInputs : List UInt8)
    (hintsBlob : BoundedVec UInt8 4096) : DispatchResult (State L) := do
  ensureNone origin
  ensure (proof.length ≤ T.maxProofSize) (.module .proofTooLarge)
  ensure (rangeProof.val.length ≤ T.maxRangeProofSize) (.module .rangeProofTooLarge)
  let inputs ← okOr (ProofPublicInputs.decode publicInputs) (.module .proofVerificationFailed)
  ensure (inputs.merkleRoot = s.currentRoot ∨ inputs.merkleRoot ∈ s.recentRoots.val)
    (.module .proofVerificationFailed)
  let cmts := inputs.newCommitments
  ensure (cmts.length % 2 ^ 32 ≤ T.maxOutputs) (.module .proofVerificationFailed)
  ensure (T.proofVerifier.verifyRangeProof rangeProof.val cmts publicInputs 64)
    (.module .proofVerificationFailed)
  ensure (T.proofVerifier.verify proof publicInputs) (.module .proofVerificationFailed)
  ensure (∀ e ∈ inputs.inputCommitments.zipIdx, inputAnchored T s inputs e.2 e.1)
    (.module .proofVerificationFailed)
  ensure (∀ n ∈ inputs.nullifiers, s.nullifierUsed n = false) (.module .nullifierAlreadyUsed)
  let s := { s with nullifierUsed := markAll s.nullifierUsed inputs.nullifiers }
  ensure (cmts.Nodup ∧ ∀ c ∈ cmts, s.commitmentIndex c = none)
    (.module .proofVerificationFailed)
  ensure (cmts.length % 2 ^ 32 ≤ T.maxOutputs) (.module .proofVerificationFailed)
  ensure (cmts.length ≤ 1048576 - s.leaves.val.length) (.module .treeFull)
  let s ← cmts.foldlM (pushLeaf T) s
  ensure (inputs.newMerkleRoot = U8Array.zero 32 ∨
    inputs.newMerkleRoot = computeMerkleRoot T s.leaves.val) (.module .proofVerificationFailed)
  let s := updateRoot T s s.leaves
  pure (s.depositEvent (.proofAccepted inputs.txId s.currentRoot cmts hintsBlob))

/-- The commitment that the opening proof speaks about: the input, or the input
less the change. -/
def effectiveCommitment (input : U8Array 32) (change : Option (U8Array 32)) :
    Option (U8Array 32) :=
  match change with
  | some cc => T.proofVerifier.pedersenSubtract input cc
  | none => some input

/-- Binding of a purchase: 80 bytes, 112 bytes when change is present. -/
def purchaseBinding (nullifier id : U8Array 32) (txId : U8Array 16)
    (change : Option (U8Array 32)) : List UInt8 :=
  nullifier.toList ++ (id.toList ++ (txId.toList ++ (change.map List.Vector.toList).getD []))

/-- What the two note purchases share once the price is known: the change is
new, the opening proof holds for the price, and the nullifier is marked. -/
def spendNote (s : State L) (inputCommitment : U8Array 32) (openingProof : List UInt8)
    (nullifier id : U8Array 32) (txId : U8Array 16) (price : UInt64)
    (change : Option (U8Array 32)) : DispatchResult (State L) := do
  ensure (∀ cc ∈ change, s.commitmentIndex cc = none) (.module .proofVerificationFailed)
  let effective ← okOr (effectiveCommitment T inputCommitment change)
    (.module .proofVerificationFailed)
  ensure (openingProof.length = 64) (.module .openingProofInvalid)
  ensure (T.proofVerifier.verifyOpeningKnowledge price effective openingProof
    (purchaseBinding nullifier id txId change)) (.module .openingProofInvalid)
  pure { s with nullifierUsed := insertAt s.nullifierUsed nullifier true }

/-- The change note of a purchase enters the tree. -/
def insertChange (s : State L) (change : Option (U8Array 32)) : DispatchResult (State L) :=
  match change with
  | some cc => insertNote T s cc
  | none => .ok s

/-- Purchase of an RWA with a note, UNSIGNED. -/
def purchaseRwa (s : State L) (origin : Origin A) (inputCommitment : U8Array 32)
    (openingProof : List UInt8) (nullifier rwaId : U8Array 32) (txId : U8Array 16)
    (ownershipCommitment : U8Array 32) (changeCommitment : Option (U8Array 32)) :
    DispatchResult (State L) := do
  ensureNone origin
  ensure (s.nullifierUsed nullifier = false) (.module .nullifierAlreadyUsed)
  ensure ((s.commitmentIndex inputCommitment).isSome) (.module .commitmentNotFound)
  let price := s.rwaPrices rwaId
  ensure (0 < price) (.module .rwaPriceNotSet)
  let s ← spendNote T s inputCommitment openingProof nullifier rwaId txId price changeCommitment
  let s ← insertChange T s changeCommitment
  let s := s.depositEvent (.rwaPurchaseAuthorized rwaId txId)
  -- the spend tag is zero: the Pedersen scheme has none
  pure (s.send (.rwaPurchase rwaId nullifier (U8Array.zero 32) price txId ownershipCommitment))

/-- Withdrawal of a note from the pool, UNSIGNED. -/
def withdrawPrivate (s : State L) (origin : Origin A) (commitment nullifier : U8Array 32)
    (openingProof destination : List UInt8) (value : UInt64) : DispatchResult (State L) := do
  ensureNone origin
  ensure ((s.commitmentIndex commitment).isSome) (.module .commitmentNotFound)
  ensure (s.nullifierUsed nullifier = false) (.module .nullifierAlreadyUsed)
  let binding := nullifier.toList ++ commitment.toList
  ensure (T.proofVerifier.verifyOpeningKnowledge value commitment openingProof binding)
    (.module .openingProofInvalid)
  ensure (destination.length = 32) (.module .proofVerificationFailed)
  let dest ← okOr (T.decodeAccount destination) (.module .proofVerificationFailed)
  let ledger ← T.currency.transferOrFail s.ledger T.poolAccount dest value.toNat .allowDeath
  let s := { s with ledger, nullifierUsed := insertAt s.nullifierUsed nullifier true }
  pure (s.depositEvent (.withdrawCompleted nullifier destination value))

/-- Sets the price of an RWA (sudo only); zero takes it off the market. -/
def setRwaPrice (s : State L) (origin : Origin A) (rwaId : U8Array 32) (price : UInt64) :
    DispatchResult (State L) := do
  ensureRoot origin
  let s := { s with rwaPrices := insertAt s.rwaPrices rwaId price }
  pure (s.depositEvent (.rwaPriceSet rwaId price))

/-- Sets the configuration of an app (sudo only). -/
def setAccessConfig (s : State L) (origin : Origin A) (appId : U8Array 32) (price : UInt64)
    (paymentAccount : U8Array 32) : DispatchResult (State L) := do
  ensureRoot origin
  let cfg : AppConfig := { price, paymentAccount }
  let s := { s with accessKeyConfigs := insertAt s.accessKeyConfigs appId (some cfg) }
  pure (s.depositEvent (.accessConfigSet appId price))

/-- The pool pays `price` to the app's payment account. -/
def payApp (s : State L) (cfg : AppConfig) : DispatchResult (State L) := do
  let paymentDest ← okOr (T.decodeAccount cfg.paymentAccount.toList)
    (.module .proofVerificationFailed)
  let ledger ← T.currency.transferOrFail s.ledger T.poolAccount paymentDest cfg.price.toNat
    .allowDeath
  pure { s with ledger }

/-- Purchase of access to an app with a note, UNSIGNED. -/
def purchaseAccess (s : State L) (origin : Origin A) (inputCommitment : U8Array 32)
    (openingProof : List UInt8) (nullifier appId : U8Array 32) (txId : U8Array 16)
    (accessKeyCommitment : U8Array 32) (changeCommitment : Option (U8Array 32)) :
    DispatchResult (State L) := do
  ensureNone origin
  ensure (s.nullifierUsed nullifier = false) (.module .nullifierAlreadyUsed)
  ensure ((s.commitmentIndex inputCommitment).isSome) (.module .commitmentNotFound)
  let cfg ← okOr (s.accessKeyConfigs appId) (.module .accessAppNotConfigured)
  ensure (0 < cfg.price) (.module .accessAppNotConfigured)
  let s ← spendNote T s inputCommitment openingProof nullifier appId txId cfg.price
    changeCommitment
  let s ← payApp T s cfg
  let s ← insertChange T s changeCommitment
  let s := s.depositEvent (.accessPurchaseAuthorized appId txId)
  pure (s.send (.accessKey appId nullifier txId accessKeyCommitment))

/-- The group that takes the next coin: the current one, or the one after it
when that is full. -/
def openGroup (s : State L) : UInt32 :=
  if 1024 ≤ (s.coinGroup s.currentGroup).val.length then s.currentGroup + 1 else s.currentGroup

/-- A coin joins the open group. -/
def registerCoin (s : State L) (coin : U8Array 32) : DispatchResult (State L) := do
  let gid := openGroup s
  let group := s.coinGroup gid
  let idx := UInt32.ofNat group.val.length
  let group ← okOr (group.tryPush coin) (.module .treeFull)
  let s := { s with
    currentGroup := gid
    coinGroups := insertAt s.coinGroups gid (some group)
    coinLocation := insertAt s.coinLocation coin (some (gid, idx)) }
  pure (s.depositEvent (.coinDeposited coin gid idx))

/-- Deposit of a coin. SIGNED: the depositor pays `amount` into the pool. -/
def depositCoin (s : State L) (origin : Origin A) (coin : U8Array 32) (amount : UInt64)
    (openProof : List UInt8) : DispatchResult (State L) := do
  let who ← ensureSigned origin
  ensure (s.coinLocation coin = none) (.module .duplicateCoin)
  ensure (T.proofVerifier.verifyDepositOpen coin amount openProof (T.encodeAccount who))
    (.module .openingProofInvalid)
  let ledger ← T.currency.transferOrFail s.ledger who T.poolAccount amount.toNat .keepAlive
  registerCoin { s with ledger } coin

/-- The change coin of a purchase joins the open group, if there is change. -/
def registerChange (s : State L) (inputs : CoinSpendPublic) (hasChange : Bool)
    (g1Pok ctx : List UInt8) : DispatchResult (State L) :=
  if hasChange then do
    ensure (s.coinLocation inputs.changeCoin = none) (.module .duplicateCoin)
    ensure (T.proofVerifier.verifyG1Pok inputs.changeCoin inputs.change g1Pok ctx)
      (.module .openingProofInvalid)
    registerCoin s inputs.changeCoin
  else .ok s

/-- What the two coin purchases share once the price is known: the one-of-many
proof holds for the padded group, the change coin is registered, and the serial
is marked. -/
def spendCoin (s : State L) (publicInputs : List UInt8) (inputs : CoinSpendPublic)
    (price : UInt64) (oneOfManyProof g1Pok : List UInt8) : DispatchResult (State L) := do
  let hasChange : Bool := inputs.change ≠ U8Array.zero 32
  ensure (hasChange = decide (inputs.changeCoin ≠ U8Array.zero 32)) (.module .changeMismatch)
  let coins := T.proofVerifier.padGroup (s.coinGroup inputs.groupId).val inputs.groupId
  let ctx := (T.blake2_256 publicInputs).toList
  ensure (T.proofVerifier.verifyOneOfMany oneOfManyProof coins inputs.serial price inputs.change
    ctx) (.module .oneOfManyInvalid)
  let s ← registerChange T s inputs hasChange g1Pok ctx
  pure { s with serialUsed := insertAt s.serialUsed inputs.serial true }

/-- Purchase of an RWA with a coin of a group, UNSIGNED. -/
def purchaseCoin (s : State L) (origin : Origin A) (publicInputs oneOfManyProof g1Pok :
    List UInt8) : DispatchResult (State L) := do
  ensureNone origin
  let inputs ← okOr (CoinSpendPublic.decode publicInputs) (.module .proofVerificationFailed)
  ensure (s.serialUsed inputs.serial = false) (.module .serialAlreadyUsed)
  ensure ((s.coinGroups inputs.groupId).isSome) (.module .groupNotFound)
  let price := s.rwaPrices inputs.rwaId
  ensure (0 < price) (.module .rwaPriceNotSet)
  let s ← spendCoin T s publicInputs inputs price oneOfManyProof g1Pok
  let s := s.depositEvent (.coinPurchaseAuthorized inputs.rwaId inputs.txId inputs.groupId
    inputs.changeCoin)
  -- nullifier and spend tag both carry the serial
  pure (s.send (.rwaPurchase inputs.rwaId inputs.serial inputs.serial price inputs.txId
    inputs.ownershipCommitment))

/-- Withdrawal of a coin of a group, UNSIGNED; the proof enforces the amount. -/
def withdrawCoin (s : State L) (origin : Origin A) (publicInputs oneOfManyProof : List UInt8) :
    DispatchResult (State L) := do
  ensureNone origin
  let inputs ← okOr (CoinWithdrawPublic.decode publicInputs) (.module .proofVerificationFailed)
  ensure (s.serialUsed inputs.serial = false) (.module .serialAlreadyUsed)
  ensure ((s.coinGroups inputs.groupId).isSome) (.module .groupNotFound)
  let coins := T.proofVerifier.padGroup (s.coinGroup inputs.groupId).val inputs.groupId
  let ctx := (T.blake2_256 publicInputs).toList
  ensure (T.proofVerifier.verifyOneOfMany oneOfManyProof coins inputs.serial inputs.amount
    (U8Array.zero 32) ctx) (.module .oneOfManyInvalid)
  let s := { s with serialUsed := insertAt s.serialUsed inputs.serial true }
  let dest ← okOr (T.decodeAccount inputs.destination.toList) (.module .proofVerificationFailed)
  let ledger ← T.currency.transferOrFail s.ledger T.poolAccount dest inputs.amount.toNat
    .allowDeath
  let s := { s with ledger }
  pure (s.depositEvent (.coinWithdrawCompleted inputs.txId inputs.amount))

/-- Purchase of access with a coin of a group, UNSIGNED; the field `rwaId`
carries the app and `ownershipCommitment` the access key commitment. -/
def purchaseAccessCoin (s : State L) (origin : Origin A) (publicInputs oneOfManyProof g1Pok :
    List UInt8) : DispatchResult (State L) := do
  ensureNone origin
  let inputs ← okOr (CoinSpendPublic.decode publicInputs) (.module .proofVerificationFailed)
  ensure (s.serialUsed inputs.serial = false) (.module .serialAlreadyUsed)
  ensure ((s.coinGroups inputs.groupId).isSome) (.module .groupNotFound)
  let appId := inputs.rwaId
  let cfg ← okOr (s.accessKeyConfigs appId) (.module .accessAppNotConfigured)
  ensure (0 < cfg.price) (.module .accessAppNotConfigured)
  let s ← spendCoin T s publicInputs inputs cfg.price oneOfManyProof g1Pok
  let s ← payApp T s cfg
  let s := s.depositEvent (.accessPurchaseAuthorized appId inputs.txId)
  pure (s.send (.accessKey appId inputs.serial inputs.txId inputs.ownershipCommitment))

/-- The calls of the pallet; `R` is the largest range proof. -/
inductive Call (R : ℕ)
  | depositPublic (commitment : List UInt8) (rangeProof : BoundedVec UInt8 R)
      (hintsBlob : BoundedVec UInt8 4096)
  | submitProof (proof : List UInt8) (rangeProof : BoundedVec UInt8 R)
      (publicInputs : List UInt8) (hintsBlob : BoundedVec UInt8 4096)
  | purchaseRwa (inputCommitment : U8Array 32) (openingProof : List UInt8)
      (nullifier rwaId : U8Array 32) (txId : U8Array 16) (ownershipCommitment : U8Array 32)
      (changeCommitment : Option (U8Array 32))
  | withdrawPrivate (commitment nullifier : U8Array 32) (openingProof destination : List UInt8)
      (value : UInt64)
  | setRwaPrice (rwaId : U8Array 32) (price : UInt64)
  | setAccessConfig (appId : U8Array 32) (price : UInt64) (paymentAccount : U8Array 32)
  | purchaseAccess (inputCommitment : U8Array 32) (openingProof : List UInt8)
      (nullifier appId : U8Array 32) (txId : U8Array 16) (accessKeyCommitment : U8Array 32)
      (changeCommitment : Option (U8Array 32))
  | depositCoin (coin : U8Array 32) (amount : UInt64) (openProof : List UInt8)
  | purchaseCoin (publicInputs oneOfManyProof g1Pok : List UInt8)
  | withdrawCoin (publicInputs oneOfManyProof : List UInt8)
  | purchaseAccessCoin (publicInputs oneOfManyProof g1Pok : List UInt8)

def dispatch (s : State L) (origin : Origin A) :
    Call T.maxRangeProofSize → DispatchResult (State L)
  | .depositPublic c rp hints => depositPublic T s origin c rp hints
  | .submitProof p rp pi hints => submitProof T s origin p rp pi hints
  | .purchaseRwa c p n id tx oc change => purchaseRwa T s origin c p n id tx oc change
  | .withdrawPrivate c n p dest v => withdrawPrivate T s origin c n p dest v
  | .setRwaPrice id price => setRwaPrice s origin id price
  | .setAccessConfig id price acc => setAccessConfig s origin id price acc
  | .purchaseAccess c p n id tx ac change => purchaseAccess T s origin c p n id tx ac change
  | .depositCoin coin amount p => depositCoin T s origin coin amount p
  | .purchaseCoin pi p g => purchaseCoin T s origin pi p g
  | .withdrawCoin pi p => withdrawCoin T s origin pi p
  | .purchaseAccessCoin pi p g => purchaseAccessCoin T s origin pi p g

end NullaRelay.ScanProof
