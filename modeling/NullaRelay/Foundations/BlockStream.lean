import Mathlib.Algebra.Order.Ring.Nat
import Mathlib.Data.List.Range
import Mathlib.Data.Vector.Basic

/-!
# Streams of blocks

A generator of pseudorandom bytes hands out the concatenation of blocks, in chunks
whose borders need not be those of the blocks. `streamAt` reads the stream at a
position and `segment` is a stretch of it; stretches join at any border, a stretch
inside one block is a slice of it, and a stretch from the start is a prefix of the
blocks one after another.
-/

namespace NullaRelay.BlockStream

variable {α : Type*} {b : ℕ} [NeZero b] (block : ℕ → List.Vector α b)

/-- The element at a position of the concatenated blocks. -/
def streamAt (k : ℕ) : α := (block (k / b)).get ⟨k % b, Nat.mod_lt k (Nat.pos_of_neZero b)⟩

/-- The `n` elements from a position on. -/
def segment (pos n : ℕ) : List α := (List.range n).map fun i => streamAt block (pos + i)

@[simp] theorem length_segment (pos n : ℕ) : (segment block pos n).length = n := by
  simp [segment]

@[simp] theorem segment_zero (pos : ℕ) : segment block pos 0 = [] := rfl

/-- Stretches join. -/
theorem segment_add (pos m n : ℕ) :
    segment block pos (m + n) = segment block pos m ++ segment block (pos + m) n := by
  simp only [segment, List.range_add, List.map_append, List.map_map, Function.comp_def,
    Nat.add_assoc]

variable {block}

theorem streamAt_of_lt {q r : ℕ} (hr : r < b) :
    streamAt block (b * q + r) = (block q).get ⟨r, hr⟩ := by
  have hdiv : (b * q + r) / b = q := by
    rw [Nat.mul_add_div (Nat.pos_of_neZero b), Nat.div_eq_of_lt hr, Nat.add_zero]
  have hmod : (⟨(b * q + r) % b, Nat.mod_lt _ (Nat.pos_of_neZero b)⟩ : Fin b) = ⟨r, hr⟩ := by
    apply Fin.ext
    show (b * q + r) % b = r
    rw [Nat.mul_add_mod, Nat.mod_eq_of_lt hr]
  rw [streamAt, hdiv, hmod]

/-- A stretch that ends within its block is a slice of the block. -/
theorem segment_slice {pos n : ℕ} (h : pos % b + n ≤ b) :
    segment block pos n = ((block (pos / b)).toList.drop (pos % b)).take n := by
  have hlen : (segment block pos n).length =
      (((block (pos / b)).toList.drop (pos % b)).take n).length := by
    rw [length_segment, List.length_take, List.length_drop, List.Vector.toList_length,
      Nat.min_eq_left (by omega)]
  refine List.ext_getElem hlen fun i hi _ => ?_
  have hin : i < n := by simpa using hi
  have hpos : pos + i = b * (pos / b) + (pos % b + i) := by
    rw [← Nat.add_assoc, Nat.div_add_mod]
  simp only [segment, List.getElem_map, List.getElem_range, List.getElem_take,
    List.getElem_drop]
  rw [hpos, streamAt_of_lt (by omega), List.Vector.get_eq_get_toList]
  rfl

/-- The first blocks, whole. -/
theorem segment_blocks (k : ℕ) :
    segment block 0 (b * k) = (List.range k).flatMap fun i => (block i).toList := by
  induction k with
  | zero => rfl
  | succ k ih =>
      have hmod : b * k % b = 0 := Nat.mul_mod_right b k
      have hdiv : b * k / b = k := Nat.mul_div_cancel_left k (Nat.pos_of_neZero b)
      have hlast : segment block (b * k) b = (block k).toList := by
        rw [segment_slice (by rw [hmod, Nat.zero_add]), hmod, hdiv, List.drop_zero,
          List.take_of_length_le (by simp)]
      rw [Nat.mul_succ, segment_add, ih, Nat.zero_add, hlast, List.range_succ,
        List.flatMap_append, List.flatMap_singleton]

/-- A stretch from the start is a prefix of enough blocks. -/
theorem segment_eq_take {n k : ℕ} (h : n ≤ b * k) :
    segment block 0 n = ((List.range k).flatMap fun i => (block i).toList).take n := by
  obtain ⟨rest, hrest⟩ := Nat.exists_eq_add_of_le h
  rw [← segment_blocks, hrest, segment_add, List.take_left' (length_segment block 0 n)]

end NullaRelay.BlockStream
