import NullaRelay.Foundations.Scale

/-!
# Public inputs of the ScanProof calls

The structures that the unsigned calls carry as SCALE bytes: the public inputs
of a balance proof, of a one-of-many purchase and of a one-of-many withdrawal.
Decoding inverts encoding for the two coin structures.
-/

namespace NullaRelay.ScanProof

open Scale

structure ProofPublicInputs where
  merkleRoot : U8Array 32
  newMerkleRoot : U8Array 32
  inputCommitments : List (U8Array 32)
  inputIndices : List UInt32
  inputPaths : List (List (U8Array 32))
  nullifiers : List (U8Array 32)
  newCommitments : List (U8Array 32)
  txId : U8Array 16

def ProofPublicInputs.decoder : Decoder ProofPublicInputs := do
  let merkleRoot ← takeBytes 32
  let newMerkleRoot ← takeBytes 32
  let inputCommitments ← decodeVec (takeBytes 32)
  let inputIndices ← decodeVec decodeU32
  let inputPaths ← decodeVec (decodeVec (takeBytes 32))
  let nullifiers ← decodeVec (takeBytes 32)
  let newCommitments ← decodeVec (takeBytes 32)
  let txId ← takeBytes 16
  pure { merkleRoot, newMerkleRoot, inputCommitments, inputIndices, inputPaths, nullifiers,
         newCommitments, txId }

/-- `ProofPublicInputs::decode(&mut &bytes[..])`. -/
def ProofPublicInputs.decode (bytes : List UInt8) : Option ProofPublicInputs :=
  Scale.decode decoder bytes

/-- Public inputs of a one-of-many purchase. The serial is the nullifier: one
spend per serial, ever. -/
structure CoinSpendPublic where
  groupId : UInt32
  serial : U8Array 32
  rwaId : U8Array 32
  txId : U8Array 16
  ownershipCommitment : U8Array 32
  /-- Plain Pedersen change output, or zero when there is none. -/
  change : U8Array 32
  /-- New coin absorbing the change, or zero when there is none. -/
  changeCoin : U8Array 32

def CoinSpendPublic.decoder : Decoder CoinSpendPublic := do
  let groupId ← decodeU32
  let serial ← takeBytes 32
  let rwaId ← takeBytes 32
  let txId ← takeBytes 16
  let ownershipCommitment ← takeBytes 32
  let change ← takeBytes 32
  let changeCoin ← takeBytes 32
  pure { groupId, serial, rwaId, txId, ownershipCommitment, change, changeCoin }

/-- `CoinSpendPublic::decode(&mut &bytes[..])`. -/
def CoinSpendPublic.decode (bytes : List UInt8) : Option CoinSpendPublic :=
  Scale.decode decoder bytes

def CoinSpendPublic.encode (p : CoinSpendPublic) : List UInt8 :=
  encodeU32 p.groupId ++ (p.serial.toList ++ (p.rwaId.toList ++ (p.txId.toList ++
    (p.ownershipCommitment.toList ++ (p.change.toList ++ p.changeCoin.toList)))))

/-- Public inputs of a one-of-many withdrawal; the proof enforces the revealed
amount exactly. -/
structure CoinWithdrawPublic where
  groupId : UInt32
  serial : U8Array 32
  amount : UInt64
  destination : U8Array 32
  txId : U8Array 16

def CoinWithdrawPublic.decoder : Decoder CoinWithdrawPublic := do
  let groupId ← decodeU32
  let serial ← takeBytes 32
  let amount ← decodeU64
  let destination ← takeBytes 32
  let txId ← takeBytes 16
  pure { groupId, serial, amount, destination, txId }

/-- `CoinWithdrawPublic::decode(&mut &bytes[..])`. -/
def CoinWithdrawPublic.decode (bytes : List UInt8) : Option CoinWithdrawPublic :=
  Scale.decode decoder bytes

def CoinWithdrawPublic.encode (p : CoinWithdrawPublic) : List UInt8 :=
  encodeU32 p.groupId ++ (p.serial.toList ++ (encodeU64 p.amount ++
    (p.destination.toList ++ p.txId.toList)))

theorem CoinSpendPublic.decodes :
    Decodes CoinSpendPublic.decoder CoinSpendPublic.encode := by
  intro p rest
  simp only [CoinSpendPublic.decoder, CoinSpendPublic.encode, List.append_assoc, StateT.run_bind,
    decodes_u32 p.groupId, takeBytes_append, Option.bind_eq_bind, Option.bind_some]
  rfl

theorem CoinWithdrawPublic.decodes :
    Decodes CoinWithdrawPublic.decoder CoinWithdrawPublic.encode := by
  intro p rest
  simp only [CoinWithdrawPublic.decoder, CoinWithdrawPublic.encode, List.append_assoc,
    StateT.run_bind, decodes_u32 p.groupId, decodes_u64 p.amount, takeBytes_append,
    Option.bind_eq_bind, Option.bind_some]
  rfl

@[simp] theorem CoinSpendPublic.decode_encode (p : CoinSpendPublic) :
    CoinSpendPublic.decode p.encode = some p :=
  CoinSpendPublic.decodes.decode_eq p

@[simp] theorem CoinWithdrawPublic.decode_encode (p : CoinWithdrawPublic) :
    CoinWithdrawPublic.decode p.encode = some p :=
  CoinWithdrawPublic.decodes.decode_eq p

end NullaRelay.ScanProof
