import NullaRelay.Field.BaseElement
import NullaRelay.Foundations.Air
import NullaRelay.Foundations.LittleEndian

/-!
# The Poseidon permutation of ProofHub

A permutation of four field elements in 64 rounds: the first and last four cube
every element, those between only the first. The round constants and the initial
value come from BLAKE3, which is a parameter. `poseidonRound` is the round
function on given constants; the circuits write the same expression on their
periodic columns.
-/

namespace NullaRelay.ProofHub

open LittleEndian Air

/-- The state of the permutation. -/
abbrev PoseidonState := Fin 4 → BaseElement

instance neZeroFour : NeZero 4 := ⟨by decide⟩

/-- The 16 bytes of a half of a 32-byte string, as a field element. -/
def unpackHalf (bytes : U8Array 32) (offset : ℕ) : BaseElement :=
  BaseElement.new (leNat ((bytes.toList.drop offset).take 16))

/-- The two halves of a 32-byte string as field elements. -/
def unpack (bytes : U8Array 32) : BaseElement × BaseElement :=
  (unpackHalf bytes 0, unpackHalf bytes 16)

/-- Two field elements as a 32-byte string. -/
def pack (lo hi : BaseElement) : U8Array 32 :=
  ⟨leBytes 16 lo.asInt ++ leBytes 16 hi.asInt, by simp⟩

theorem asInt_lt_pow (x : BaseElement) : x.asInt < 256 ^ 16 := by
  have h := x.asInt_lt
  rw [baseModulus_eq] at h
  omega

@[simp] theorem unpack_pack (lo hi : BaseElement) : unpack (pack lo hi) = (lo, hi) := by
  have hlo : leNat (leBytes 16 lo.asInt) = lo.asInt := leNat_leBytes_of_lt (asInt_lt_pow lo)
  have hhi : leNat (leBytes 16 hi.asInt) = hi.asInt := leNat_leBytes_of_lt (asInt_lt_pow hi)
  have htake : (leBytes 16 hi.asInt).take 16 = leBytes 16 hi.asInt :=
    List.take_of_length_le (by simp)
  simp [unpack, unpackHalf, pack, List.Vector.toList, htake, hlo, hhi]

@[simp] theorem unpack_zero : unpack (U8Array.zero 32) = (0, 0) := by
  simp [unpack, unpackHalf, U8Array.zero, List.Vector.toList, BaseElement.new, leNat,
    Nat.ofDigits]

/-- The field element that a 64-bit value stands for. -/
def ofU64 (v : UInt64) : BaseElement := BaseElement.new v.toNat

/-- The field is larger than 64 bits. -/
theorem ofU64_inj {x y : UInt64} (h : ofU64 x = ofU64 y) : x = y := by
  have hx := x.toNat_lt
  have hy := y.toNat_lt
  refine UInt64.toNat_inj.1 (BaseElement.new_inj ?_ ?_ h) <;> rw [baseModulus_eq] <;> omega

/-- Number of rounds. -/
def poseidonRounds : ℕ := 64

def isFullRound (round : ℕ) : Prop := round < 4 ∨ 60 ≤ round

instance : DecidablePred isFullRound := fun round =>
  inferInstanceAs (Decidable (round < 4 ∨ 60 ≤ round))

/-- One round on the given constants. -/
def poseidonRound (rc : Fin 4 → BaseElement) (isFull : BaseElement) (s : PoseidonState) :
    PoseidonState :=
  let a := fun i => s i + rc i
  let ac := fun i => a i ^ 2 * a i
  let b0 := ac 0
  let b1 := isFull * ac 1 + (1 - isFull) * a 1
  let b2 := isFull * ac 2 + (1 - isFull) * a 2
  let b3 := isFull * ac 3 + (1 - isFull) * a 3
  let bsum := b0 + b1 + b2 + b3
  ![b0 + bsum, b1 + bsum, b2 + bsum, b3 + bsum]

section Hash

variable (blake3 : List UInt8 → U8Array 32)

/-- The first 16 bytes of the hash of a byte string, as a field element. -/
def ivFromDomain (domain : List UInt8) : BaseElement := unpackHalf (blake3 domain) 0

def poseidonRc (round : ℕ) (col : Fin 4) : BaseElement :=
  unpackHalf (blake3 (byteString "poseidon_f128_rc_v1" ++
    [1, UInt8.ofNat round, UInt8.ofNat col])) 0

def poseidonIv : BaseElement := ivFromDomain blake3 (byteString "poseidon_f128_iv_v1")

def poseidonEvalRoundBase (round : ℕ) (s : PoseidonState) : PoseidonState :=
  poseidonRound (poseidonRc blake3 round) (mask (isFullRound round)) s

/-- The permutation: the rounds one after another. -/
def poseidonPerm (s : PoseidonState) : PoseidonState :=
  steps (poseidonEvalRoundBase blake3) poseidonRounds s

/-- The output of the permutation: its second and third element. -/
def poseidonOutput (s : PoseidonState) : BaseElement × BaseElement :=
  (poseidonPerm blake3 s 1, poseidonPerm blake3 s 2)

/-- The commitment of v1 notes. -/
def poseidonHash (v : UInt64) (blinding : U8Array 32) : U8Array 32 :=
  let b := unpack blinding
  let out := poseidonOutput blake3 ![poseidonIv blake3, ofU64 v, b.1, b.2]
  pack out.1 out.2

theorem unpack_poseidonHash (v : UInt64) (blinding : U8Array 32) :
    unpack (poseidonHash blake3 v blinding) =
      poseidonOutput blake3
        ![poseidonIv blake3, ofU64 v, (unpack blinding).1, (unpack blinding).2] := by
  simp [poseidonHash]

end Hash

end NullaRelay.ProofHub
