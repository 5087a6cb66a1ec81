import NullaRelay.Foundations.Merkle
import NullaRelay.ProofHub.Poseidon

/-!
# Notes, nullifiers and paths of the v2 lane

Hashing of v2 notes, of their nullifiers and of tree nodes, on field elements
and on bytes, and the paths of the tree of depth 20. The three hash functions on
field elements are a structure of their own, so that what is proved about the
lane holds for any of them; `poseidonHashes` are the ones of the verifier. The
byte strings of the lane are the packed pairs.
-/

namespace NullaRelay.ProofHub.V2

open LittleEndian Merkle

/-- Two field elements: a node, a note, a blinding or a key digest. -/
abbrev Pair := BaseElement × BaseElement

/-- Hashing on field elements. -/
structure Hashes where
  note : UInt64 → Pair → Pair → Pair
  nullifier : Pair → Pair
  merkle : Pair → Pair → Pair

def merkleDepth : ℕ := 20

section Poseidon

variable (blake3 : List UInt8 → U8Array 32)

def noteIv : BaseElement := ivFromDomain blake3 (byteString "nulla_note_iv_v2")

def nullifierIv : BaseElement := ivFromDomain blake3 (byteString "nulla_nullifier_iv_v2")

def merkleIv : BaseElement := ivFromDomain blake3 (byteString "nulla_merkle_iv_v2")

/-- The hash functions of the verifier: sponges over the permutation. -/
def poseidonHashes : Hashes where
  note v b pkd :=
    let s := poseidonPerm blake3 ![noteIv blake3, ofU64 v, b.1, b.2]
    poseidonOutput blake3 ![s 0, s 1 + pkd.1, s 2 + pkd.2, s 3]
  nullifier b := poseidonOutput blake3 ![nullifierIv blake3, b.1, b.2, 0]
  merkle l r :=
    let s := poseidonPerm blake3 ![merkleIv blake3, l.1, l.2, r.1]
    poseidonOutput blake3 ![s 0, s 1 + r.2, s 2, s 3]

/-- `pkd = BLAKE3("nulla_pk_digest_v2" || pk)`. -/
def pkDigest (pk : List UInt8) : U8Array 32 := blake3 (byteString "nulla_pk_digest_v2" ++ pk)

end Poseidon

variable (H : Hashes)

/-- A pair as 32 bytes. -/
def packPair (p : Pair) : U8Array 32 := pack p.1 p.2

@[simp] theorem unpack_packPair (p : Pair) : unpack (packPair p) = p := unpack_pack p.1 p.2

/-- The leaf of a note. -/
def noteHash (v : UInt64) (b pkd : U8Array 32) : U8Array 32 :=
  packPair (H.note v (unpack b) (unpack pkd))

def nullifierHash (b : U8Array 32) : U8Array 32 := packPair (H.nullifier (unpack b))

def merkleHash2 (left right : U8Array 32) : U8Array 32 :=
  packPair (H.merkle (unpack left) (unpack right))

@[simp] theorem unpack_noteHash (v : UInt64) (b pkd : U8Array 32) :
    unpack (noteHash H v b pkd) = H.note v (unpack b) (unpack pkd) := unpack_packPair _

@[simp] theorem unpack_merkleHash2 (left right : U8Array 32) :
    unpack (merkleHash2 H left right) = H.merkle (unpack left) (unpack right) := unpack_packPair _

/-- The root that a leaf and its 20 siblings give, the index bits from the lowest
up. -/
def merklePathRoot (leaf : U8Array 32) (index : ℕ) (siblings : List.Vector (U8Array 32) 20) :
    U8Array 32 := pathRoot (merkleHash2 H) siblings.toList index leaf

/-- `verify_merkle_path`. -/
def verifyMerklePath (leaf : U8Array 32) (index : UInt32)
    (siblings : List.Vector (U8Array 32) 20) (root : U8Array 32) : Bool :=
  merklePathRoot H leaf index.toNat siblings = root

/-- `zero_change_leaf()`. -/
def zeroChangeLeaf : U8Array 32 := noteHash H 0 (U8Array.zero 32) (U8Array.zero 32)

theorem unpack_merklePathRoot (leaf : U8Array 32) (index : ℕ)
    (siblings : List.Vector (U8Array 32) 20) :
    unpack (merklePathRoot H leaf index siblings) =
      pathRoot H.merkle (siblings.toList.map unpack) index (unpack leaf) :=
  map_pathRoot (unpack_merkleHash2 H) siblings.toList index leaf

end NullaRelay.ProofHub.V2
