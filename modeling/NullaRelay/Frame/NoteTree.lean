import NullaRelay.Frame.Dispatch
import Mathlib.Data.List.DropRight

/-!
# The tree of the first note lanes

The Merkle tree that both proofs pallets keep for their first notes: the list of
leaf hashes is stored in full and the root is computed over all of it. The last
64 roots before the current one stay recent.
-/

namespace NullaRelay.Frame.NoteTree

section Hash

variable (blake2_256 : List UInt8 → U8Array 32)

def hash2 (left right : U8Array 32) : U8Array 32 := blake2_256 (left.toList ++ right.toList)

/-- The commitment is filled up with zeros to 64 bytes. -/
def leafHash (commitment : U8Array 32) : U8Array 32 :=
  blake2_256 (commitment.toList ++ List.replicate 32 0)

/-- One level up: the pairs are hashed, an odd last node with zero. -/
def hashPairs : List (U8Array 32) → List (U8Array 32)
  | a :: b :: rest => hash2 blake2_256 a b :: hashPairs rest
  | [a] => [hash2 blake2_256 a (U8Array.zero 32)]
  | [] => []

/-- `while cur.len() > 1`; every level has fewer nodes, so the number of nodes
bounds the number of levels. -/
def hashLevels : ℕ → List (U8Array 32) → List (U8Array 32)
  | 0, cur => cur
  | fuel + 1, cur => if 1 < cur.length then hashLevels fuel (hashPairs blake2_256 cur) else cur

/-- `compute_merkle_root`: zero for no leaves, otherwise the root of the leaves
filled up with zeros to a power of two. -/
def computeMerkleRoot (leaves : List (U8Array 32)) : U8Array 32 :=
  if leaves.isEmpty then U8Array.zero 32
  else
    let missing := leaves.length.nextPowerOfTwo - leaves.length
    let level := leaves ++ List.replicate missing (U8Array.zero 32)
    (hashLevels blake2_256 level.length level).headD (U8Array.zero 32)

/-- An indexed commitment has its leaf at its index. -/
def Indexed (index : U8Array 32 → Option UInt32) (leaves : List (U8Array 32)) : Prop :=
  ∀ c i, index c = some i → leaves[i.toNat]? = some (leafHash blake2_256 c)

end Hash

/-- The index after the commitments joined one after the other, the first as
leaf `n`. -/
def indexAll (index : U8Array 32 → Option UInt32) (n : ℕ) :
    List (U8Array 32) → U8Array 32 → Option UInt32
  | [] => index
  | c :: cs => indexAll (insertAt index c (some (UInt32.ofNat n))) (n + 1) cs

theorem isSome_indexAll {index : U8Array 32 → Option UInt32} {n : ℕ} {cs : List (U8Array 32)}
    {a : U8Array 32} : (indexAll index n cs a).isSome ↔ (index a).isSome ∨ a ∈ cs := by
  induction cs generalizing index n with
  | nil => simp [indexAll]
  | cons c cs ih =>
      rw [indexAll, ih, List.mem_cons, ← or_assoc]
      refine or_congr_left ?_
      by_cases hc : a = c
      · simp [hc]
      · simp [hc]

/-- The index has exactly the entries of the list, each at its place. -/
def IndexOf (index : U8Array 32 → Option UInt32) (l : List (U8Array 32)) : Prop :=
  ∀ a i, index a = some i ↔ l[i.toNat]? = some a

theorem IndexOf.append_singleton {index : U8Array 32 → Option UInt32} {l : List (U8Array 32)}
    (h : IndexOf index l) {a : U8Array 32} (hnew : a ∉ l) {idx : UInt32}
    (hidx : idx.toNat = l.length) : IndexOf (insertAt index a (some idx)) (l ++ [a]) := by
  intro b i
  rcases Nat.lt_trichotomy i.toNat l.length with hlt | heq | hgt
  · rw [List.getElem?_append_left hlt]
    by_cases hb : b = a
    · subst hb
      have hne : idx ≠ i := by
        rintro rfl
        omega
      have hnone : l[i.toNat]? ≠ some b := fun hget => hnew (List.mem_of_getElem? hget)
      simp [hne, hnone]
    · rw [insertAt, Function.update_of_ne hb]
      exact h b i
  · obtain rfl : i = idx := UInt32.toNat_inj.1 (heq.trans hidx.symm)
    rw [heq, List.getElem?_concat_length]
    by_cases hb : b = a
    · simp [hb]
    · have hnone : index b ≠ some i := by
        intro hget
        have hlt := (List.getElem?_eq_some_iff.1 ((h b i).1 hget)).1
        omega
      simp [hb, hnone, Ne.symm hb]
  · have hout : (l ++ [a])[i.toNat]? = none := List.getElem?_eq_none (by simp; omega)
    have hnone : insertAt index a (some idx) b ≠ some i := by
      by_cases hb : b = a
      · subst hb
        rw [insertAt, Function.update_self]
        intro hi
        obtain rfl := Option.some.inj hi
        omega
      · rw [insertAt, Function.update_of_ne hb]
        intro hget
        have hlt := (List.getElem?_eq_some_iff.1 ((h b i).1 hget)).1
        omega
    simp [hout, hnone]

/-- What is not indexed is not in the list. -/
theorem IndexOf.notMem {index : U8Array 32 → Option UInt32} {l : List (U8Array 32)}
    (h : IndexOf index l) (hlen : l.length ≤ 2 ^ 32) {a : U8Array 32} (hnone : index a = none) :
    a ∉ l := by
  intro ha
  obtain ⟨p, hp⟩ := List.getElem?_of_mem ha
  have hlt : p < 2 ^ 32 := (List.getElem?_eq_some_iff.1 hp).1.trans_le hlen
  rw [← UInt32.toNat_ofNat_of_lt' hlt] at hp
  rw [(h a _).2 hp] at hnone
  cases hnone

theorem IndexOf.append {index : U8Array 32 → Option UInt32} {l : List (U8Array 32)}
    (h : IndexOf index l) {cs : List (U8Array 32)} (hnodup : (l ++ cs).Nodup)
    (hlen : l.length + cs.length ≤ 2 ^ 32) : IndexOf (indexAll index l.length cs) (l ++ cs) := by
  induction cs generalizing index l with
  | nil => simpa [indexAll] using h
  | cons c cs ih =>
      rw [List.length_cons] at hlen
      have hl : l.length < 2 ^ 32 := by omega
      have hnew : c ∉ l := by
        intro hc
        exact List.disjoint_of_nodup_append hnodup hc List.mem_cons_self
      have hsnoc := h.append_singleton hnew (UInt32.toNat_ofNat_of_lt' hl)
      rw [List.append_cons] at hnodup
      have hrest := ih hsnoc hnodup (by simp; omega)
      rw [List.append_cons]
      simpa [indexAll] using hrest

section Hash

variable {blake2_256 : List UInt8 → U8Array 32} {index : U8Array 32 → Option UInt32}
  {leaves : List (U8Array 32)}

theorem Indexed.snoc (h : Indexed blake2_256 index leaves) (c : U8Array 32)
    (hlen : leaves.length < 2 ^ 32) :
    Indexed blake2_256 (insertAt index c (some (UInt32.ofNat leaves.length)))
      (leaves ++ [leafHash blake2_256 c]) := by
  intro c' i hi
  by_cases hc : c' = c
  · subst hc
    rw [insertAt, Function.update_self] at hi
    obtain rfl := Option.some.inj hi
    rw [UInt32.toNat_ofNat_of_lt' hlen, List.getElem?_concat_length]
  · rw [insertAt, Function.update_of_ne hc] at hi
    have hget := h c' i hi
    have hlt : i.toNat < leaves.length := (List.getElem?_eq_some_iff.1 hget).1
    rw [List.getElem?_append_left hlt]
    exact hget

theorem Indexed.append (h : Indexed blake2_256 index leaves) (cs : List (U8Array 32))
    (hlen : leaves.length + cs.length ≤ 2 ^ 32) :
    Indexed blake2_256 (indexAll index leaves.length cs)
      (leaves ++ cs.map (leafHash blake2_256)) := by
  induction cs generalizing index leaves with
  | nil => simpa [indexAll] using h
  | cons c cs ih =>
      simp only [List.length_cons] at hlen
      have hsnoc := h.snoc c (by omega)
      have hrest := ih hsnoc (by simp; omega)
      simpa [indexAll] using hrest

end Hash

/-- The window of recent roots makes room by dropping its oldest entry. -/
def shiftWindow (window : BoundedVec (U8Array 32) 64) : BoundedVec (U8Array 32) 64 :=
  if 64 ≤ window.val.length then
    ⟨window.val.tail, by
      have h := window.property
      rw [List.length_tail]
      omega⟩
  else window

/-- The window after the previous root joined it. -/
def pushRoot (window : BoundedVec (U8Array 32) 64) (prev : U8Array 32) :
    BoundedVec (U8Array 32) 64 :=
  (shiftWindow window).pushOrKeep prev

theorem shiftWindow_val (window : BoundedVec (U8Array 32) 64) :
    (shiftWindow window).val = window.val.rtake 63 := by
  have hlen := window.property
  unfold shiftWindow List.rtake
  split_ifs with hfull
  · have hone : window.val.length - 63 = 1 := by omega
    rw [hone, List.drop_one]
  · have hzero : window.val.length - 63 = 0 := by omega
    rw [hzero, List.drop_zero]

theorem length_rtake_le {α : Type} (l : List α) (n : ℕ) : (l.rtake n).length ≤ n := by
  rw [List.rtake, List.length_drop]
  omega

/-- The window keeps the last 64 of the roots pushed. -/
theorem pushRoot_val (window : BoundedVec (U8Array 32) 64) (prev : U8Array 32) :
    (pushRoot window prev).val = (window.val ++ [prev]).rtake 64 := by
  have hroom : (shiftWindow window).val.length < 64 := by
    rw [shiftWindow_val]
    exact Nat.lt_succ_of_le (length_rtake_le _ 63)
  rw [pushRoot, BoundedVec.pushOrKeep, BoundedVec.tryPush_of_lt hroom, Option.getD_some,
    List.rtake_concat_succ, ← shiftWindow_val]

theorem rtake_rtake_succ {α : Type} (l : List α) (n : ℕ) :
    (l.rtake (n + 1)).rtake n = l.rtake n := by
  rw [List.rtake_eq_reverse_take_reverse, List.rtake_eq_reverse_take_reverse,
    List.rtake_eq_reverse_take_reverse, List.reverse_reverse, List.take_take,
    Nat.min_eq_left (Nat.le_succ n)]

theorem pushRoot_rtake {window : BoundedVec (U8Array 32) 64} {roots : List (U8Array 32)}
    (h : window.val = roots.rtake 64) (prev : U8Array 32) :
    (pushRoot window prev).val = (roots ++ [prev]).rtake 64 := by
  rw [pushRoot_val, h, List.rtake_concat_succ, List.rtake_concat_succ, rtake_rtake_succ]

/-- A recent root was one before, or is the one pushed. -/
theorem mem_of_mem_pushRoot {window : BoundedVec (U8Array 32) 64} {prev r : U8Array 32}
    (h : r ∈ (pushRoot window prev).val) : r ∈ window.val ∨ r = prev := by
  rw [pushRoot_val] at h
  simpa using List.mem_of_mem_drop h

end NullaRelay.Frame.NoteTree
