import Mathlib.Data.Nat.Digits.Lemmas
import Mathlib.Data.Vector.Basic

/-!
# Little-endian bytes

`leNat` reads a list of bytes as a natural number, least significant byte
first, and `leBytes k` writes the low `k` bytes of a number. On lists of one
length the reading is injective, and a number below `256 ^ k` is read back from
its bytes. `U8Array n` is the type of byte arrays of length `n`.
-/

namespace NullaRelay.LittleEndian

/-- The number that the bytes stand for, least significant byte first. -/
def leNat (bs : List UInt8) : ℕ := Nat.ofDigits 256 (bs.map UInt8.toNat)

/-- The low `k` bytes of `n`, least significant byte first. -/
def leBytes : ℕ → ℕ → List UInt8
  | 0, _ => []
  | k + 1, n => UInt8.ofNat n :: leBytes k (n / 256)

@[simp] theorem leNat_nil : leNat [] = 0 := rfl

theorem leNat_cons (b : UInt8) (bs : List UInt8) :
    leNat (b :: bs) = b.toNat + 256 * leNat bs := by
  simp [leNat, Nat.ofDigits_cons]

@[simp] theorem length_leBytes (k n : ℕ) : (leBytes k n).length = k := by
  induction k generalizing n with
  | zero => rfl
  | succ k ih => simp [leBytes, ih]

theorem leNat_lt (bs : List UInt8) : leNat bs < 256 ^ bs.length := by
  have h := Nat.ofDigits_lt_base_pow_length (b := 256) (l := bs.map UInt8.toNat)
    (by norm_num) (by
      intro x hx
      obtain ⟨b, -, rfl⟩ := List.mem_map.1 hx
      exact b.toNat_lt)
  simpa [leNat] using h

theorem leNat_leBytes (k n : ℕ) : leNat (leBytes k n) = n % 256 ^ k := by
  induction k generalizing n with
  | zero => simp [leBytes, Nat.mod_one]
  | succ k ih =>
      have hbyte : (UInt8.ofNat n).toNat = n % 256 := by simp
      rw [leBytes, leNat_cons, ih, hbyte, pow_succ', Nat.mod_mul]

theorem leNat_leBytes_of_lt {k n : ℕ} (h : n < 256 ^ k) :
    leNat (leBytes k n) = n := by
  rw [leNat_leBytes, Nat.mod_eq_of_lt h]

/-- Two byte lists of one length that stand for the same number are equal. -/
theorem leNat_inj {bs cs : List UInt8} (hlen : bs.length = cs.length)
    (h : leNat bs = leNat cs) : bs = cs := by
  have hdigit : ∀ ds : List UInt8, ∀ x ∈ ds.map UInt8.toNat, x < 256 := by
    intro ds x hx
    obtain ⟨b, -, rfl⟩ := List.mem_map.1 hx
    exact b.toNat_lt
  have hmap := Nat.ofDigits_inj_of_len_eq (b := 256) (by norm_num)
    (by simpa using hlen) (hdigit bs) (hdigit cs) h
  exact List.map_injective_iff.2 (fun a b hab => UInt8.toNat_inj.1 hab) hmap

end NullaRelay.LittleEndian

namespace NullaRelay

open LittleEndian

/-- A byte array `[u8; n]`. -/
abbrev U8Array (n : ℕ) := List.Vector UInt8 n

namespace U8Array

/-- The array that starts with the bytes `bs` and is zero from there on. -/
def padded (n : ℕ) (bs : List UInt8) : U8Array n :=
  ⟨(bs ++ List.replicate n 0).take n, by simp⟩

/-- `[0u8; n]`. -/
def zero (n : ℕ) : U8Array n := ⟨List.replicate n 0, by simp⟩

/-- The array of the low `n` bytes of a number. -/
def ofNat (n x : ℕ) : U8Array n := ⟨leBytes n x, length_leBytes n x⟩

/-- The number that the array stands for, little-endian. -/
def toNat {n : ℕ} (a : U8Array n) : ℕ := leNat a.toList

theorem toNat_lt {n : ℕ} (a : U8Array n) : a.toNat < 256 ^ n := by
  have h := leNat_lt a.toList
  rwa [a.toList_length] at h

theorem toNat_ofNat {n x : ℕ} (h : x < 256 ^ n) : (ofNat n x).toNat = x :=
  leNat_leBytes_of_lt h

theorem toNat_inj {n : ℕ} {a b : U8Array n} (h : a.toNat = b.toNat) : a = b :=
  List.Vector.toList_injective (leNat_inj (by simp) h)

/-- Membership in a list of 32-byte keys is decided by comparing the arrays. -/
instance instLawfulBEqKey : LawfulBEq (U8Array 32) := inferInstance

end U8Array

/-- The bytes of an ASCII byte string `b".."`. -/
def byteString (s : String) : List UInt8 := s.toList.map fun c => UInt8.ofNat c.toNat

/-- `&bytes[offset..offset + n]` where the slice is known to be in range. -/
def sliceAt (n : ℕ) (bytes : List UInt8) (offset : ℕ) : U8Array n :=
  U8Array.padded n (bytes.drop offset)

section Slices

variable {m n offset : ℕ} {bytes rest : List UInt8}

theorem sliceAt_eq {a : U8Array n} (h : bytes.drop offset = a.toList ++ rest) :
    sliceAt n bytes offset = a := by
  apply List.Vector.toList_injective
  rw [sliceAt, h]
  show (a.toList ++ rest ++ List.replicate n 0).take n = a.toList
  rw [List.append_assoc]
  exact List.take_left' a.toList_length

theorem sliceAt_left (a : U8Array n) (rest : List UInt8) : sliceAt n (a.toList ++ rest) 0 = a :=
  sliceAt_eq rfl

theorem sliceAt_toList (a : U8Array n) : sliceAt n a.toList 0 = a :=
  sliceAt_eq (List.append_nil _).symm

theorem sliceAt_right (a : U8Array m) (rest : List UInt8) (offset : ℕ) :
    sliceAt n (a.toList ++ rest) (m + offset) = sliceAt n rest offset := by
  rw [sliceAt, ← List.drop_drop, List.drop_left' a.toList_length, sliceAt]

end Slices

end NullaRelay
