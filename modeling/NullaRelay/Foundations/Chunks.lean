import Mathlib.Algebra.Order.Ring.Nat
import Mathlib.Data.List.Infix
import Mathlib.Data.List.Nodup
import Mathlib.Data.Nat.Log

/-!
# Lists in chunks, and powers of two

A list that grows at its end, seen as chunks of one size: a new element joins one
chunk and leaves the others alone, and all chunks before the last are full. The
next power of two is the one at the ceiling logarithm.
-/

namespace NullaRelay.Chunks

variable {α : Type*}

/-- The chunk `k` of the list, in chunks of `n`. -/
def chunk (n : ℕ) (l : List α) (k : ℕ) : List α := (l.drop (n * k)).take n

theorem length_chunk (n : ℕ) (l : List α) (k : ℕ) :
    (chunk n l k).length = min n (l.length - n * k) := by
  rw [chunk, List.length_take, List.length_drop]

theorem getElem?_chunk {n i : ℕ} (hi : i < n) (l : List α) (k : ℕ) :
    (chunk n l k)[i]? = l[n * k + i]? := by
  rw [chunk, List.getElem?_take_of_lt hi, List.getElem?_drop]

/-- A place in a chunk is a place in the list. -/
theorem getElem?_chunk_eq_some {n i k : ℕ} {l : List α} {a : α} :
    (chunk n l k)[i]? = some a ↔ i < n ∧ l[n * k + i]? = some a := by
  by_cases hi : i < n
  · rw [getElem?_chunk hi]
    exact ⟨fun h => ⟨hi, h⟩, fun h => h.2⟩
  · have hout : (chunk n l k)[i]? = none := by
      rw [List.getElem?_eq_none_iff, length_chunk]
      omega
    rw [hout]
    exact ⟨fun h => absurd h (by simp), fun h => absurd h.1 hi⟩

/-- Each place of the list lies in one chunk. -/
theorem place_inj {n k i k' i' : ℕ} (hi : i < n) (hi' : i' < n)
    (h : n * k + i = n * k' + i') : k = k' ∧ i = i' := by
  have hn : 0 < n := Nat.zero_lt_of_lt hi
  have hk : k = k' := by
    have hdiv := congrArg (· / n) h
    simpa [Nat.mul_add_div hn, Nat.div_eq_of_lt hi, Nat.div_eq_of_lt hi'] using hdiv
  subst hk
  exact ⟨rfl, Nat.add_left_cancel h⟩

/-- Without repetitions each element is in one place of one chunk. -/
theorem chunk_unique {n k i k' i' : ℕ} {l : List α} {a : α} (hl : l.Nodup)
    (h : (chunk n l k)[i]? = some a) (h' : (chunk n l k')[i']? = some a) :
    k = k' ∧ i = i' := by
  obtain ⟨hi, hget⟩ := getElem?_chunk_eq_some.1 h
  obtain ⟨hi', hget'⟩ := getElem?_chunk_eq_some.1 h'
  have hlt : n * k + i < l.length := (List.getElem?_eq_some_iff.1 hget).1
  exact place_inj hi hi' ((List.getElem?_inj hlt hl).1 (hget.trans hget'.symm))

/-- Each element of the list has a place in some chunk. -/
theorem exists_getElem?_chunk {n : ℕ} (hn : 0 < n) {l : List α} {a : α} (ha : a ∈ l) :
    ∃ k i : ℕ, n * k < l.length ∧ (chunk n l k)[i]? = some a := by
  obtain ⟨p, hp⟩ := List.getElem?_of_mem ha
  have hlt : p < l.length := (List.getElem?_eq_some_iff.1 hp).1
  have hle : n * (p / n) ≤ p := Nat.mul_div_le p n
  refine ⟨p / n, p % n, by omega, ?_⟩
  rw [getElem?_chunk (Nat.mod_lt p hn), Nat.div_add_mod, hp]

theorem chunk_prefix (n : ℕ) (l l' : List α) (k : ℕ) : chunk n l k <+: chunk n (l ++ l') k := by
  have hdrop : l.drop (n * k) <+: (l ++ l').drop (n * k) := by
    rw [List.drop_append]
    exact List.prefix_append _ _
  exact List.IsPrefix.take hdrop n

/-- A new element joins the chunk of its place. -/
theorem chunk_append_singleton {n k i : ℕ} {l : List α} (hi : i < n)
    (hl : l.length = n * k + i) (a : α) : chunk n (l ++ [a]) k = chunk n l k ++ [a] := by
  have hdrop : (l ++ [a]).drop (n * k) = l.drop (n * k) ++ [a] :=
    List.drop_append_of_le_length (by omega)
  have hlen : (l.drop (n * k)).length = i := by
    rw [List.length_drop]
    omega
  rw [chunk, chunk, hdrop, List.take_of_length_le (by simp; omega),
    List.take_of_length_le (by omega)]

/-- The other chunks stay as they are. -/
theorem chunk_append_singleton_of_ne {n k i k' : ℕ} {l : List α} (hi : i < n)
    (hl : l.length = n * k + i) (hk : k' ≠ k) (a : α) :
    chunk n (l ++ [a]) k' = chunk n l k' := by
  have hmul : n * k' + n ≤ n * k ∨ n * k + n ≤ n * k' := by
    rcases Nat.lt_or_gt_of_ne hk with hlt | hgt
    · exact .inl (by simpa [Nat.mul_succ] using Nat.mul_le_mul_left n hlt)
    · exact .inr (by simpa [Nat.mul_succ] using Nat.mul_le_mul_left n hgt)
  rcases hmul with hbelow | habove
  · rw [chunk, chunk, List.drop_append_of_le_length (by omega), List.take_append_of_le_length]
    rw [List.length_drop]
    omega
  · rw [chunk, chunk, List.drop_of_length_le (by simp; omega), List.drop_of_length_le (by omega)]

/-- The places of the other elements stay as they are. -/
theorem getElem?_chunk_append_singleton {n k i : ℕ} {l : List α} {a b : α} (hb : b ≠ a) :
    (chunk n (l ++ [a]) k)[i]? = some b ↔ (chunk n l k)[i]? = some b := by
  rw [getElem?_chunk_eq_some, getElem?_chunk_eq_some]
  have hget : (l ++ [a])[n * k + i]? = some b ↔ l[n * k + i]? = some b := by
    rcases Nat.lt_or_ge (n * k + i) l.length with hlt | hge
    · rw [List.getElem?_append_left hlt]
    · rw [List.getElem?_append_right hge, List.getElem?_eq_none hge]
      simp [List.getElem?_singleton, Ne.symm hb]
  rw [hget]

open private Nat.nextPowerOfTwo.go from Init.Data.Nat.Power2.Basic

/-- The loop of `nextPowerOfTwo` from a power of two on. -/
theorem nextPowerOfTwo_go (n : ℕ) (i : ℕ) (h : 0 < 2 ^ i) :
    Nat.nextPowerOfTwo.go n (2 ^ i) h = 2 ^ max i (Nat.clog 2 n) := by
  by_cases hlt : 2 ^ i < n
  · have hi : i < Nat.clog 2 n := (Nat.lt_clog_iff_pow_lt one_lt_two).2 hlt
    have hgo := nextPowerOfTwo_go n (i + 1) (Nat.two_pow_pos _)
    rw [Nat.nextPowerOfTwo.go, if_pos hlt]
    simp only [Nat.pow_succ] at hgo
    rw [hgo, max_eq_right hi.le, max_eq_right (Nat.succ_le_of_lt hi)]
  · have hi : Nat.clog 2 n ≤ i := Nat.clog_le_of_le_pow (not_lt.1 hlt)
    rw [Nat.nextPowerOfTwo.go, if_neg hlt, max_eq_left hi]
termination_by Nat.clog 2 n - i

theorem nextPowerOfTwo_eq (n : ℕ) : n.nextPowerOfTwo = 2 ^ Nat.clog 2 n := by
  have hgo := nextPowerOfTwo_go n 0 Nat.one_pos
  rw [Nat.zero_max] at hgo
  exact hgo

end NullaRelay.Chunks
