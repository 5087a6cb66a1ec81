import NullaRelay.Foundations.Lucas
import NullaRelay.Foundations.LittleEndian
import Mathlib.Tactic.ReduceModChar
import Mathlib.Tactic.NormNum.Prime

/-!
# The scalars of the Ristretto group

`Scalar` is the field of integers modulo the order of the Ristretto group,
`2 ^ 252 + 27742317777372353535851937790883648493`. The modulus is proved prime.
A byte array is read as a scalar by reduction, so that the 32-byte arrays below
the modulus, the canonical ones, are the only ones a scalar determines.
-/

namespace NullaRelay

open Lucas

/-- The order of the Ristretto group. -/
def groupOrder : ℕ := 2 ^ 252 + 27742317777372353535851937790883648493

theorem groupOrder_eq : groupOrder =
    7237005577332262213973186563042994240857116359379907606001950938285454250989 := by
  norm_num [groupOrder]

theorem prime_58964693 : Nat.Prime 58964693 := by
  refine prime_of_factors 2 [2, 2, 14741173] ?_ (by norm_num) (by reduce_mod_char) ?_
  · simp
    norm_num
  · simp only [List.forall_mem_cons, Nat.reduceSub, Nat.reduceDiv]
    refine ⟨?_, ?_, ?_, by simp⟩ <;> · reduce_mod_char; decide

theorem prime_3044861653679985063343 : Nat.Prime 3044861653679985063343 := by
  refine prime_of_factors 5 [2, 3, 11, 30703, 82163, 132667, 137849]
    ?_ (by norm_num) (by reduce_mod_char) ?_
  · simp
    norm_num
  · simp only [List.forall_mem_cons, Nat.reduceSub, Nat.reduceDiv]
    refine ⟨?_, ?_, ?_, ?_, ?_, ?_, ?_, by simp⟩ <;> · reduce_mod_char; decide

theorem prime_198211423230930754013084525763697 : Nat.Prime 198211423230930754013084525763697 := by
  refine prime_of_factors 5 [2, 2, 2, 2, 3, 23, 58964693, 3044861653679985063343]
    ?_ (by norm_num) (by reduce_mod_char) ?_
  · simp [prime_58964693, prime_3044861653679985063343]
    norm_num
  · simp only [List.forall_mem_cons, Nat.reduceSub, Nat.reduceDiv]
    refine ⟨?_, ?_, ?_, ?_, ?_, ?_, ?_, ?_, by simp⟩ <;> · reduce_mod_char; decide

theorem prime_1257559732178653 : Nat.Prime 1257559732178653 := by
  refine prime_of_factors 2 [2, 2, 3, 7, 23, 531581, 1224481]
    ?_ (by norm_num) (by reduce_mod_char) ?_
  · simp
    norm_num
  · simp only [List.forall_mem_cons, Nat.reduceSub, Nat.reduceDiv]
    refine ⟨?_, ?_, ?_, ?_, ?_, ?_, ?_, by simp⟩ <;> · reduce_mod_char; decide

theorem prime_4434155615661930479 : Nat.Prime 4434155615661930479 := by
  refine prime_of_factors 17 [2, 41, 43, 1257559732178653] ?_ (by norm_num) (by reduce_mod_char) ?_
  · simp [prime_1257559732178653]
    norm_num
  · simp only [List.forall_mem_cons, Nat.reduceSub, Nat.reduceDiv]
    refine ⟨?_, ?_, ?_, ?_, by simp⟩ <;> · reduce_mod_char; decide

theorem prime_172054593956031949258510691 : Nat.Prime 172054593956031949258510691 := by
  refine prime_of_factors 2 [2, 5, 1361, 2851, 4434155615661930479]
    ?_ (by norm_num) (by reduce_mod_char) ?_
  · simp [prime_4434155615661930479]
    norm_num
  · simp only [List.forall_mem_cons, Nat.reduceSub, Nat.reduceDiv]
    refine ⟨?_, ?_, ?_, ?_, ?_, by simp⟩ <;> · reduce_mod_char; decide

theorem prime_292386187 : Nat.Prime 292386187 := by
  refine prime_of_factors 2 [2, 3, 3, 3, 3, 307, 5879] ?_ (by norm_num) (by reduce_mod_char) ?_
  · simp
    norm_num
  · simp only [List.forall_mem_cons, Nat.reduceSub, Nat.reduceDiv]
    refine ⟨?_, ?_, ?_, ?_, ?_, ?_, ?_, by simp⟩ <;> · reduce_mod_char; decide

theorem prime_213441916511 : Nat.Prime 213441916511 := by
  refine prime_of_factors 13 [2, 5, 73, 292386187] ?_ (by norm_num) (by reduce_mod_char) ?_
  · simp [prime_292386187]
    norm_num
  · simp only [List.forall_mem_cons, Nat.reduceSub, Nat.reduceDiv]
    refine ⟨?_, ?_, ?_, ?_, by simp⟩ <;> · reduce_mod_char; decide

theorem prime_19757330305831588566944191468367130476339 :
    Nat.Prime 19757330305831588566944191468367130476339 := by
  refine prime_of_factors 2 [2, 269, 213441916511, 172054593956031949258510691]
    ?_ (by norm_num) (by reduce_mod_char) ?_
  · simp [prime_213441916511, prime_172054593956031949258510691]
    norm_num
  · simp only [List.forall_mem_cons, Nat.reduceSub, Nat.reduceDiv]
    refine ⟨?_, ?_, ?_, ?_, by simp⟩ <;> · reduce_mod_char; decide

theorem prime_276602624281642239937218680557139826668747 :
    Nat.Prime 276602624281642239937218680557139826668747 := by
  refine prime_of_factors 2 [2, 7, 19757330305831588566944191468367130476339]
    ?_ (by norm_num) (by reduce_mod_char) ?_
  · simp [prime_19757330305831588566944191468367130476339]
    norm_num
  · simp only [List.forall_mem_cons, Nat.reduceSub, Nat.reduceDiv]
    refine ⟨?_, ?_, ?_, by simp⟩ <;> · reduce_mod_char; decide

theorem groupOrder_prime : groupOrder.Prime := by
  rw [groupOrder_eq]
  refine prime_of_factors 2 [2, 2, 3, 11, 198211423230930754013084525763697,
    276602624281642239937218680557139826668747]
    ?_ (by norm_num) (by reduce_mod_char) ?_
  · simp [prime_198211423230930754013084525763697,
      prime_276602624281642239937218680557139826668747]
    norm_num
  · simp only [List.forall_mem_cons, Nat.reduceSub, Nat.reduceDiv]
    refine ⟨?_, ?_, ?_, ?_, ?_, ?_, by simp⟩ <;> · reduce_mod_char; decide

instance : Fact groupOrder.Prime := ⟨groupOrder_prime⟩

/-- A scalar of the Ristretto group. -/
abbrev Scalar := ZMod groupOrder

namespace Scalar

/-- `Scalar::from_bytes_mod_order`. -/
def fromBytesModOrder (bs : U8Array 32) : Scalar := (bs.toNat : ZMod groupOrder)

/-- `Scalar::from_bytes_mod_order_wide`. -/
def fromBytesModOrderWide (bs : U8Array 64) : Scalar := (bs.toNat : ZMod groupOrder)

/-- `Scalar::from_canonical_bytes`: the bytes are refused unless they are the
representative below the modulus. -/
def fromCanonicalBytes (bs : U8Array 32) : Option Scalar :=
  if bs.toNat < groupOrder then some (fromBytesModOrder bs) else none

/-- `Scalar::from(u64)`. -/
def ofU64 (x : UInt64) : Scalar := (x.toNat : ZMod groupOrder)

/-- `to_bytes`: the canonical representative. -/
def toBytes (x : Scalar) : U8Array 32 := U8Array.ofNat 32 x.val

/-- The encoding of a scalar that `fromBytesModOrder` would give back. -/
def Canonical (bs : U8Array 32) : Prop := bs.toNat < groupOrder

instance (bs : U8Array 32) : Decidable (Canonical bs) :=
  inferInstanceAs (Decidable (_ < _))

theorem natCast_inj {m n : ℕ} (hm : m < groupOrder) (hn : n < groupOrder)
    (h : (m : Scalar) = n) : m = n := by
  rw [← ZMod.val_cast_of_lt hm, h, ZMod.val_cast_of_lt hn]

/-- Among the canonical encodings a scalar has one only. -/
theorem fromBytesModOrder_inj {a b : U8Array 32} (ha : Canonical a) (hb : Canonical b)
    (h : fromBytesModOrder a = fromBytesModOrder b) : a = b :=
  U8Array.toNat_inj (natCast_inj ha hb h)

theorem toNat_toBytes (x : Scalar) : (toBytes x).toNat = x.val := by
  have hlt : groupOrder < 256 ^ 32 := by norm_num [groupOrder]
  exact U8Array.toNat_ofNat ((ZMod.val_lt x).trans hlt)

theorem fromBytesModOrder_toBytes (x : Scalar) : fromBytesModOrder (toBytes x) = x := by
  rw [fromBytesModOrder, toNat_toBytes, ZMod.natCast_zmod_val]

/-- The encoding of a scalar is canonical and read back. -/
theorem fromCanonicalBytes_toBytes (x : Scalar) : fromCanonicalBytes (toBytes x) = some x := by
  rw [fromCanonicalBytes, toNat_toBytes, if_pos (ZMod.val_lt x), fromBytesModOrder_toBytes]

theorem u64_lt_groupOrder (x : UInt64) : x.toNat < groupOrder :=
  lt_of_lt_of_le x.toNat_lt (by norm_num [groupOrder])

theorem ofU64_inj {x y : UInt64} (h : ofU64 x = ofU64 y) : x = y :=
  UInt64.toNat_inj.1 (natCast_inj (u64_lt_groupOrder x) (u64_lt_groupOrder y) h)

end Scalar

end NullaRelay
