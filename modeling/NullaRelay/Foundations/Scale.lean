import NullaRelay.Foundations.LittleEndian
import Mathlib.Tactic.Ring

/-!
# The SCALE codec

Decoders of the SCALE format, as functions that read a prefix of the input and
hand on the rest, and the encoders they invert. Fixed-width integers are
little-endian, a byte array is its bytes, a vector is its length as a compact
integer followed by its entries, and an option is a tag byte followed by the
value. `Decodes d enc` says that `d` reads back what `enc` wrote, whatever
follows it; a struct decodes field by field. `decode` ignores bytes left over,
`decodeAll` refuses them.
-/

namespace NullaRelay.Scale

open LittleEndian

/-- A decoder reads a prefix of the input and returns what is left. -/
abbrev Decoder (α : Type) := StateT (List UInt8) Option α

variable {α β : Type}

/-- `T::decode(&mut &bytes[..])`: bytes after the value are ignored. -/
def decode (d : Decoder α) (bs : List UInt8) : Option α := (d.run bs).map Prod.fst

/-- `T::decode_all(&mut &bytes[..])`: bytes after the value are an error. -/
def decodeAll (d : Decoder α) (bs : List UInt8) : Option α :=
  (d.run bs).bind fun r => if r.2 = [] then some r.1 else none

/-- `[u8; n]`. -/
def takeBytes (n : ℕ) : Decoder (U8Array n) := fun bs =>
  if h : n ≤ bs.length then some (⟨bs.take n, by simpa using h⟩, bs.drop n) else none

def decodeU8 : Decoder UInt8 := (fun a => UInt8.ofNat a.toNat) <$> takeBytes 1

def decodeU16 : Decoder UInt16 := (fun a => UInt16.ofNat a.toNat) <$> takeBytes 2

def decodeU32 : Decoder UInt32 := (fun a => UInt32.ofNat a.toNat) <$> takeBytes 4

def decodeU64 : Decoder UInt64 := (fun a => UInt64.ofNat a.toNat) <$> takeBytes 8

def decodeU128 : Decoder (Fin (2 ^ 128)) :=
  (fun a => ⟨a.toNat, by simpa using a.toNat_lt⟩) <$> takeBytes 16

/-- `Compact<u32>`: the low two bits of the first byte are the mode, and each
mode refuses a number that a shorter one could write. -/
def decodeCompactU32 : Decoder ℕ := fun bs =>
  match bs with
  | [] => none
  | b :: rest =>
      match b.toNat % 4 with
      | 0 => some (b.toNat / 4, rest)
      | 1 => (takeBytes 2 bs).bind fun r =>
          if 2 ^ 6 ≤ r.1.toNat / 4 then some (r.1.toNat / 4, r.2) else none
      | 2 => (takeBytes 4 bs).bind fun r =>
          if 2 ^ 14 ≤ r.1.toNat / 4 then some (r.1.toNat / 4, r.2) else none
      | _ =>
          if b.toNat / 4 = 0 then
            (takeBytes 4 rest).bind fun r =>
              if 2 ^ 30 ≤ r.1.toNat then some (r.1.toNat, r.2) else none
          else none

/-- `n` values in a row. -/
def decodeTimes (d : Decoder α) : ℕ → Decoder (List α)
  | 0 => pure []
  | n + 1 => do
      let a ← d
      let as ← decodeTimes d n
      pure (a :: as)

/-- `Vec<T>`. -/
def decodeVec (d : Decoder α) : Decoder (List α) := do
  let n ← decodeCompactU32
  decodeTimes d n

/-- `Option<T>`. -/
def decodeOption (d : Decoder α) : Decoder (Option α) := do
  let tag ← decodeU8
  if tag = 0 then pure none
  else if tag = 1 then some <$> d
  else failure

/-- `bool`: one byte, zero or one. -/
def decodeBool : Decoder Bool := do
  let b ← decodeU8
  if b = 0 then pure false
  else if b = 1 then pure true
  else failure

/-- `BoundedVec<T, ConstU32<n>>`: a longer vector is an error. -/
def decodeBoundedVec (d : Decoder α) (n : ℕ) : Decoder { as : List α // as.length ≤ n } := do
  let as ← decodeVec d
  if h : as.length ≤ n then pure ⟨as, h⟩ else failure

def encodeU8 (b : UInt8) : List UInt8 := [b]

def encodeU32 (x : UInt32) : List UInt8 := leBytes 4 x.toNat

def encodeU64 (x : UInt64) : List UInt8 := leBytes 8 x.toNat

/-- `Compact<u32>` in the shortest mode that fits. -/
def encodeCompactU32 (n : ℕ) : List UInt8 :=
  if n < 2 ^ 6 then leBytes 1 (4 * n)
  else if n < 2 ^ 14 then leBytes 2 (4 * n + 1)
  else if n < 2 ^ 30 then leBytes 4 (4 * n + 2)
  else 3 :: leBytes 4 n

def encodeVec (enc : α → List UInt8) (as : List α) : List UInt8 :=
  encodeCompactU32 as.length ++ as.flatMap enc

def encodeOption (enc : α → List UInt8) : Option α → List UInt8
  | none => [0]
  | some a => 1 :: enc a

theorem decodeAll_map (f : α → β) (d : Decoder α) (bs : List UInt8) :
    decodeAll (f <$> d) bs = (decodeAll d bs).map f := by
  simp only [decodeAll, StateT.run_map]
  cases d.run bs with
  | none => rfl
  | some r =>
      by_cases hr : r.2 = [] <;> simp [hr]

/-- The decoder reads back what the encoder wrote and leaves the rest. -/
def Decodes (d : Decoder α) (enc : α → List UInt8) : Prop :=
  ∀ a rest, d.run (enc a ++ rest) = some (a, rest)

theorem Decodes.decode_eq {d : Decoder α} {enc : α → List UInt8}
    (h : Decodes d enc) (a : α) : decode d (enc a) = some a := by
  have h' := h a []
  rw [List.append_nil] at h'
  simp [decode, h']

theorem takeBytes_append {n : ℕ} (a : U8Array n) (rest : List UInt8) :
    (takeBytes n).run (a.toList ++ rest) = some (a, rest) := by
  obtain ⟨l, rfl⟩ := a
  simp [takeBytes, StateT.run, List.Vector.toList]

theorem takeBytes_of_length {n : ℕ} (bs rest : List UInt8) (h : bs.length = n) :
    (takeBytes n).run (bs ++ rest) = some (⟨bs, h⟩, rest) :=
  takeBytes_append ⟨bs, h⟩ rest

theorem takeBytes_eq_none {n : ℕ} {bs : List UInt8} (h : bs.length < n) :
    (takeBytes n).run bs = none := by
  simp [takeBytes, StateT.run, Nat.not_le.2 h]

theorem decodes_takeBytes (n : ℕ) :
    Decodes (takeBytes n) (List.Vector.toList : U8Array n → List UInt8) :=
  takeBytes_append

/-- A byte array at the head of the input goes to the rest of the decoder. -/
@[simp] theorem run_takeBytes_bind {n : ℕ} (a : U8Array n) (rest : List UInt8)
    (f : U8Array n → Decoder α) :
    (takeBytes n >>= f).run (a.toList ++ rest) = (f a).run rest := by
  rw [StateT.run_bind, takeBytes_append]
  rfl

/-- An input too short for the byte array fails the whole decoder. -/
theorem run_takeBytes_bind_eq_none {n : ℕ} {bs : List UInt8} (h : bs.length < n)
    (f : U8Array n → Decoder α) : (takeBytes n >>= f).run bs = none := by
  rw [StateT.run_bind, takeBytes_eq_none h]
  rfl

/-- If whatever the array is, the rest of the decoder fails, so does the whole. -/
theorem run_takeBytes_bind_none {n : ℕ} {bs : List UInt8} {f : U8Array n → Decoder α}
    (h : ∀ a, (f a).run (bs.drop n) = none) : (takeBytes n >>= f).run bs = none := by
  rw [StateT.run_bind]
  by_cases hn : n ≤ bs.length
  · simpa [takeBytes, StateT.run, hn] using h _
  · rw [takeBytes_eq_none (Nat.not_le.1 hn)]
    rfl

@[simp] theorem run_decodeU8 (b : UInt8) (bs : List UInt8) :
    decodeU8.run (b :: bs) = some (b, bs) := by
  have hread : (takeBytes 1).run (b :: bs) = some (⟨[b], rfl⟩, bs) :=
    takeBytes_of_length [b] bs rfl
  have hb : UInt8.ofNat (leNat [b]) = b := by simp [leNat_cons]
  simp [decodeU8, hread, U8Array.toNat, List.Vector.toList, hb]

@[simp] theorem run_decodeU8_bind (b : UInt8) (bs : List UInt8) (f : UInt8 → Decoder α) :
    (decodeU8 >>= f).run (b :: bs) = (f b).run bs := by
  rw [StateT.run_bind, run_decodeU8]
  rfl

theorem decodes_u8 : Decodes decodeU8 encodeU8 := fun b rest => run_decodeU8 b rest

theorem decodes_option {d : Decoder α} {enc : α → List UInt8} (h : Decodes d enc) :
    Decodes (decodeOption d) (encodeOption enc) := by
  intro o rest
  cases o with
  | none => simp [decodeOption, encodeOption]
  | some a => simp [decodeOption, encodeOption, h a rest]

theorem decodes_u32 : Decodes decodeU32 encodeU32 := by
  intro x rest
  have hx : leNat (leBytes 4 x.toNat) = x.toNat := leNat_leBytes_of_lt x.toNat_lt
  have hread := takeBytes_of_length (leBytes 4 x.toNat) rest (length_leBytes 4 _)
  simp [decodeU32, encodeU32, hread, U8Array.toNat, List.Vector.toList, hx]

@[simp] theorem run_decodeU32_bind (x : UInt32) (rest : List UInt8)
    (f : UInt32 → Decoder α) :
    (decodeU32 >>= f).run (encodeU32 x ++ rest) = (f x).run rest := by
  rw [StateT.run_bind, decodes_u32]
  rfl

theorem decodes_u64 : Decodes decodeU64 encodeU64 := by
  intro x rest
  have hx : leNat (leBytes 8 x.toNat) = x.toNat := leNat_leBytes_of_lt x.toNat_lt
  have hread := takeBytes_of_length (leBytes 8 x.toNat) rest (length_leBytes 8 _)
  simp [decodeU64, encodeU64, hread, U8Array.toNat, List.Vector.toList, hx]

theorem decodeCompactU32_cons (b : UInt8) (bs : List UInt8) :
    decodeCompactU32.run (b :: bs) =
      if b.toNat % 4 = 0 then some (b.toNat / 4, bs)
      else if b.toNat % 4 = 1 then ((takeBytes 2).run (b :: bs)).bind fun r =>
        if 2 ^ 6 ≤ r.1.toNat / 4 then some (r.1.toNat / 4, r.2) else none
      else if b.toNat % 4 = 2 then ((takeBytes 4).run (b :: bs)).bind fun r =>
        if 2 ^ 14 ≤ r.1.toNat / 4 then some (r.1.toNat / 4, r.2) else none
      else if b.toNat / 4 = 0 then
        ((takeBytes 4).run bs).bind fun r =>
          if 2 ^ 30 ≤ r.1.toNat then some (r.1.toNat, r.2) else none
      else none := by
  have hlt : b.toNat % 4 < 4 := Nat.mod_lt _ (by norm_num)
  simp only [decodeCompactU32, StateT.run]
  interval_cases b.toNat % 4 <;> simp

theorem compactU32_of_lt {n : ℕ} (hn : n < 2 ^ 32) (rest : List UInt8) :
    decodeCompactU32.run (encodeCompactU32 n ++ rest) = some (n, rest) := by
  have hread (k x : ℕ) : leBytes (k + 1) x ++ rest =
      UInt8.ofNat x :: (leBytes k (x / 256) ++ rest) := rfl
  have htake (k x : ℕ) := takeBytes_of_length (leBytes k x) rest (length_leBytes k x)
  have hbyte (x : ℕ) : (UInt8.ofNat x).toNat = x % 256 := by simp
  unfold encodeCompactU32
  split_ifs with h6 h14 h30
  · have h0 : 4 * n % 256 % 4 = 0 := by omega
    have hn' : 4 * n % 256 / 4 = n := by omega
    rw [hread, decodeCompactU32_cons, hbyte, if_pos h0, hn']
    rfl
  · have h1 : (4 * n + 1) % 256 % 4 = 1 := by omega
    have hval : leNat (leBytes 2 (4 * n + 1)) / 4 = n := by
      rw [leNat_leBytes_of_lt (by omega)]
      omega
    have h := htake 2 (4 * n + 1)
    rw [hread] at h ⊢
    rw [decodeCompactU32_cons, hbyte, h1, h]
    have h6' : 2 ^ 6 ≤ n := by omega
    simpa [U8Array.toNat, List.Vector.toList, hval] using h6'
  · have h2 : (4 * n + 2) % 256 % 4 = 2 := by omega
    have hval : leNat (leBytes 4 (4 * n + 2)) / 4 = n := by
      rw [leNat_leBytes_of_lt (by omega)]
      omega
    have h := htake 4 (4 * n + 2)
    rw [hread] at h ⊢
    rw [decodeCompactU32_cons, hbyte, h2, h]
    have h14' : 2 ^ 14 ≤ n := by omega
    simpa [U8Array.toNat, List.Vector.toList, hval] using h14'
  · have hval : leNat (leBytes 4 n) = n := leNat_leBytes_of_lt (by omega)
    have h30' : 2 ^ 30 ≤ n := by omega
    rw [List.cons_append, decodeCompactU32_cons, htake]
    simpa [U8Array.toNat, List.Vector.toList, hval] using h30'

theorem decodeTimes_append {d : Decoder α} {enc : α → List UInt8}
    (h : Decodes d enc) (as : List α) (rest : List UInt8) :
    (decodeTimes d as.length).run (as.flatMap enc ++ rest) = some (as, rest) := by
  induction as with
  | nil => rfl
  | cons a as ih =>
      rw [List.flatMap_cons, List.append_assoc, List.length_cons, decodeTimes,
        StateT.run_bind, h a]
      simp [ih]

/-- A vector of fewer than `2 ^ 32` entries reads back. -/
theorem decodeVec_append {d : Decoder α} {enc : α → List UInt8}
    (h : Decodes d enc) {as : List α} (hlen : as.length < 2 ^ 32)
    (rest : List UInt8) :
    (decodeVec d).run (encodeVec enc as ++ rest) = some (as, rest) := by
  rw [encodeVec, List.append_assoc, decodeVec, StateT.run_bind,
    compactU32_of_lt hlen]
  change (decodeTimes d as.length).run (as.flatMap enc ++ rest) = some (as, rest)
  exact decodeTimes_append h as rest

theorem length_encodeCompactU32_le (n : ℕ) : (encodeCompactU32 n).length ≤ 5 := by
  unfold encodeCompactU32
  split_ifs <;> simp

theorem length_encodeVec {n : ℕ} (as : List (U8Array n)) :
    (encodeVec List.Vector.toList as).length =
      n * as.length + (encodeCompactU32 as.length).length := by
  have hbytes : (as.flatMap List.Vector.toList).length = n * as.length := by
    induction as with
    | nil => rfl
    | cons a as ih =>
        rw [List.flatMap_cons, List.length_append, ih, List.Vector.toList_length, List.length_cons]
        ring
  rw [encodeVec, List.length_append, hbytes, Nat.add_comm]

/-- The encoding of a vector of byte arrays that are longer than a compact integer
determines the vector, however long it is. -/
theorem encodeVec_inj {n : ℕ} (hn : 5 < n) {as bs : List (U8Array n)} :
    encodeVec List.Vector.toList as = encodeVec List.Vector.toList bs ↔ as = bs := by
  refine ⟨fun h => ?_, fun h => h ▸ rfl⟩
  have hcompact (k : ℕ) : (encodeCompactU32 k).length < n :=
    (length_encodeCompactU32_le k).trans_lt hn
  have hlen : as.length = bs.length := by
    have htotal := congrArg (fun e => e.length / n) h
    simpa only [length_encodeVec, Nat.mul_add_div (Nat.zero_lt_of_lt hn),
      Nat.div_eq_of_lt (hcompact _), Nat.add_zero] using htotal
  rw [encodeVec, encodeVec, hlen, List.append_cancel_left_eq] at h
  have hread := decodeTimes_append (decodes_takeBytes n) as []
  rw [h, hlen, decodeTimes_append (decodes_takeBytes n) bs []] at hread
  simpa using hread.symm

end NullaRelay.Scale
