import NullaRelay.Foundations.Scale

/-!
# Public inputs of the ProofHub calls

The structures that the unsigned calls carry as SCALE bytes: the inputs of the
first purchases and withdrawals, which name their note by a spend tag, and those
of the second lane, which name a root and a nullifier. A relist takes its inputs
as an argument.
-/

namespace NullaRelay.ProofHub

open Scale

/-- Public inputs of a v1 purchase. The spend tag comes first: its 32 bytes are
those that the signature check compares with the key. -/
structure RwaPurchaseInputs where
  spendTag : U8Array 32
  nullifier : U8Array 32
  rwaId : U8Array 32
  destination : List UInt8
  txId : U8Array 16
  ownershipCommitment : U8Array 32
  /-- Change note, where the note is worth more than the price. -/
  changeCommitment : Option (U8Array 32)
  changeSpendTag : Option (U8Array 32)
  purchaseProof : List UInt8

def RwaPurchaseInputs.decoder : Decoder RwaPurchaseInputs := do
  let spendTag ← takeBytes 32
  let nullifier ← takeBytes 32
  let rwaId ← takeBytes 32
  let destination ← decodeVec decodeU8
  let txId ← takeBytes 16
  let ownershipCommitment ← takeBytes 32
  let changeCommitment ← decodeOption (takeBytes 32)
  let changeSpendTag ← decodeOption (takeBytes 32)
  let purchaseProof ← decodeVec decodeU8
  pure { spendTag, nullifier, rwaId, destination, txId, ownershipCommitment, changeCommitment,
         changeSpendTag, purchaseProof }

/-- `RwaPurchaseInputs::decode(&mut &bytes[..])`. -/
def RwaPurchaseInputs.decode (bytes : List UInt8) : Option RwaPurchaseInputs :=
  Scale.decode decoder bytes

/-- Public inputs of a v1 withdrawal, with the opening of the note's commitment. -/
structure WithdrawInputs where
  spendTag : U8Array 32
  destination : List UInt8
  txId : U8Array 16
  noteValue : UInt64
  noteBlinding : U8Array 32

def WithdrawInputs.decoder : Decoder WithdrawInputs := do
  let spendTag ← takeBytes 32
  let destination ← decodeVec decodeU8
  let txId ← takeBytes 16
  let noteValue ← decodeU64
  let noteBlinding ← takeBytes 32
  pure { spendTag, destination, txId, noteValue, noteBlinding }

/-- `WithdrawInputs::decode(&mut &bytes[..])`. -/
def WithdrawInputs.decode (bytes : List UInt8) : Option WithdrawInputs :=
  Scale.decode decoder bytes

/-- Inputs of a private transfer of an ownership record. -/
structure RelistInputs where
  oldTxId : U8Array 16
  rwaId : U8Array 32
  ownershipBlinding : U8Array 32
  newBuyerSpendTag : U8Array 32
  price : UInt64
  paymentCommitment : U8Array 32
  paymentSpendTag : U8Array 32
  changeCommitment : Option (U8Array 32)
  changeSpendTag : Option (U8Array 32)
  newOwnershipCommitment : U8Array 32
  newTxId : U8Array 16
  buyerValue : UInt64
  buyerBlinding : U8Array 32
  paymentBlinding : U8Array 32
  changeValue : Option UInt64
  changeBlinding : Option (U8Array 32)

/-- Public inputs of a v2 purchase; the change leaf is always there. -/
structure SpendPublicV2 where
  merkleRoot : U8Array 32
  nullifier : U8Array 32
  rwaId : U8Array 32
  txId : U8Array 16
  ownershipCommitment : U8Array 32
  changeLeaf : U8Array 32
  changePkd : U8Array 32

def SpendPublicV2.decoder : Decoder SpendPublicV2 := do
  let merkleRoot ← takeBytes 32
  let nullifier ← takeBytes 32
  let rwaId ← takeBytes 32
  let txId ← takeBytes 16
  let ownershipCommitment ← takeBytes 32
  let changeLeaf ← takeBytes 32
  let changePkd ← takeBytes 32
  pure { merkleRoot, nullifier, rwaId, txId, ownershipCommitment, changeLeaf, changePkd }

/-- `SpendPublicV2::decode(&mut &bytes[..])`. -/
def SpendPublicV2.decode (bytes : List UInt8) : Option SpendPublicV2 := Scale.decode decoder bytes

/-- Public inputs of a v2 withdrawal; the circuit enforces the revealed amount. -/
structure WithdrawPublicV2 where
  merkleRoot : U8Array 32
  nullifier : U8Array 32
  amount : UInt64
  destination : U8Array 32
  txId : U8Array 16

def WithdrawPublicV2.decoder : Decoder WithdrawPublicV2 := do
  let merkleRoot ← takeBytes 32
  let nullifier ← takeBytes 32
  let amount ← decodeU64
  let destination ← takeBytes 32
  let txId ← takeBytes 16
  pure { merkleRoot, nullifier, amount, destination, txId }

/-- `WithdrawPublicV2::decode(&mut &bytes[..])`. -/
def WithdrawPublicV2.decode (bytes : List UInt8) : Option WithdrawPublicV2 :=
  Scale.decode decoder bytes

def RwaPurchaseInputs.encode (p : RwaPurchaseInputs) : List UInt8 :=
  p.spendTag.toList ++ (p.nullifier.toList ++ (p.rwaId.toList ++
    (encodeVec encodeU8 p.destination ++ (p.txId.toList ++ (p.ownershipCommitment.toList ++
      (encodeOption List.Vector.toList p.changeCommitment ++
        (encodeOption List.Vector.toList p.changeSpendTag ++
          encodeVec encodeU8 p.purchaseProof)))))))

def WithdrawInputs.encode (p : WithdrawInputs) : List UInt8 :=
  p.spendTag.toList ++ (encodeVec encodeU8 p.destination ++ (p.txId.toList ++
    (encodeU64 p.noteValue ++ p.noteBlinding.toList)))

def SpendPublicV2.encode (p : SpendPublicV2) : List UInt8 :=
  p.merkleRoot.toList ++ (p.nullifier.toList ++ (p.rwaId.toList ++ (p.txId.toList ++
    (p.ownershipCommitment.toList ++ (p.changeLeaf.toList ++ p.changePkd.toList)))))

def WithdrawPublicV2.encode (p : WithdrawPublicV2) : List UInt8 :=
  p.merkleRoot.toList ++ (p.nullifier.toList ++ (encodeU64 p.amount ++
    (p.destination.toList ++ p.txId.toList)))

@[simp] theorem RwaPurchaseInputs.decode_encode {p : RwaPurchaseInputs}
    (hdest : p.destination.length < 2 ^ 32) (hproof : p.purchaseProof.length < 2 ^ 32) :
    RwaPurchaseInputs.decode p.encode = some p := by
  have hlast := decodeVec_append decodes_u8 hproof []
  rw [List.append_nil] at hlast
  simp [RwaPurchaseInputs.decode, Scale.decode, RwaPurchaseInputs.decoder,
    RwaPurchaseInputs.encode, StateT.run_bind, takeBytes_append,
    decodeVec_append decodes_u8 hdest, decodes_option (decodes_takeBytes 32) _ _, hlast]

@[simp] theorem WithdrawInputs.decode_encode {p : WithdrawInputs}
    (hdest : p.destination.length < 2 ^ 32) : WithdrawInputs.decode p.encode = some p := by
  have hlast := takeBytes_append p.noteBlinding []
  rw [List.append_nil] at hlast
  simp [WithdrawInputs.decode, Scale.decode, WithdrawInputs.decoder, WithdrawInputs.encode,
    StateT.run_bind, takeBytes_append, decodeVec_append decodes_u8 hdest, decodes_u64 _ _, hlast]

theorem SpendPublicV2.decodes : Decodes SpendPublicV2.decoder SpendPublicV2.encode := by
  intro p rest
  simp only [SpendPublicV2.decoder, SpendPublicV2.encode, List.append_assoc, StateT.run_bind,
    takeBytes_append, Option.bind_eq_bind, Option.bind_some]
  rfl

theorem WithdrawPublicV2.decodes : Decodes WithdrawPublicV2.decoder WithdrawPublicV2.encode := by
  intro p rest
  simp only [WithdrawPublicV2.decoder, WithdrawPublicV2.encode, List.append_assoc,
    StateT.run_bind, decodes_u64 p.amount, takeBytes_append, Option.bind_eq_bind,
    Option.bind_some]
  rfl

@[simp] theorem SpendPublicV2.decode_encode (p : SpendPublicV2) :
    SpendPublicV2.decode p.encode = some p :=
  SpendPublicV2.decodes.decode_eq p

@[simp] theorem WithdrawPublicV2.decode_encode (p : WithdrawPublicV2) :
    WithdrawPublicV2.decode p.encode = some p :=
  WithdrawPublicV2.decodes.decode_eq p

end NullaRelay.ProofHub
