import Mathlib.Algebra.Field.Basic
import Mathlib.Algebra.Ring.Parity
import Mathlib.Data.Fin.VecNotation
import Mathlib.Logic.Function.Basic
import Mathlib.Tactic.LinearCombination
import Mathlib.Tactic.Ring

/-!
# Algebraic intermediate representations

A trace is a table with rows for the steps of a computation. A circuit
constrains every two consecutive rows, with periodic columns that depend on the
step, and asserts single cells. The rules below turn constraints that hold row
by row into facts about whole stretches of rows: a frozen stretch is constant, a
stretch that applies a round function iterates it, and an accumulator of bits
ends in a number below the power of two. A prover fills its table by loops that
write each row from the one before it.
-/

namespace NullaRelay

/-- A table of `n` rows and `w` columns. -/
abbrev Trace (F : Type) (n w : ℕ) := Fin n → Fin w → F

namespace Trace

variable {F : Type} {n w : ℕ}

/-- The row at a step below `n`. -/
def row [NeZero n] (t : Trace F n w) (i : ℕ) : Fin w → F := t (Fin.ofNat n i)

/-- The trace with the given rows. -/
def ofRows (n : ℕ) (rows : ℕ → Fin w → F) : Trace F n w := fun i => rows i

theorem row_ofRows [NeZero n] (rows : ℕ → Fin w → F) {i : ℕ} (h : i < n) :
    (ofRows n rows).row i = rows i := by
  simp [row, ofRows, Fin.ofNat, Nat.mod_eq_of_lt h]

end Trace

/-- `Assertion::single`: the cell in this column and row has this value. -/
structure Assertion (F : Type) (w : ℕ) where
  column : Fin w
  row : ℕ
  value : F

/-- A circuit of width `w`: the values of its `m` transition constraints at a
step, on the current and the next row, and its assertions. -/
structure Air (F : Type) (w m : ℕ) where
  evaluateTransition : ℕ → (Fin w → F) → (Fin w → F) → Fin m → F
  assertions : List (Assertion F w)

namespace Air

variable {F : Type} {n w m : ℕ}

/-- All transition constraints vanish between consecutive rows, and all
assertions hold. -/
structure Satisfies [Zero F] [NeZero n] (air : Air F w m) (t : Trace F n w) : Prop where
  transition : ∀ i, i + 1 < n → air.evaluateTransition i (t.row i) (t.row (i + 1)) = 0
  assertion : ∀ a ∈ air.assertions, t.row a.row a.column = a.value

/-- A selector column: one where the condition holds, zero elsewhere. -/
def mask [Zero F] [One F] (c : Prop) [Decidable c] : F := if c then 1 else 0

@[simp] theorem mask_true [Zero F] [One F] : (mask True : F) = 1 := if_pos trivial

@[simp] theorem mask_false [Zero F] [One F] : (mask False : F) = 0 := if_neg not_false

theorem mask_pos [Zero F] [One F] {c : Prop} [Decidable c] (h : c) : (mask c : F) = 1 := if_pos h

theorem mask_neg [Zero F] [One F] {c : Prop} [Decidable c] (h : ¬ c) : (mask c : F) = 0 := if_neg h

theorem mask_mul_eq_zero [MulZeroOneClass F] {c : Prop} [Decidable c] {x : F} :
    mask c * x = 0 ↔ (c → x = 0) := by
  by_cases h : c <;> simp [h]

section Stretches

variable {α : Type*}

/-- `k` rounds, the round function given its index. -/
def steps (f : ℕ → α → α) : ℕ → α → α
  | 0, s => s
  | k + 1, s => f k (steps f k s)

@[simp] theorem steps_zero (f : ℕ → α → α) (s : α) : steps f 0 s = s := rfl

theorem steps_succ (f : ℕ → α → α) (k : ℕ) (s : α) : steps f (k + 1) s = f k (steps f k s) := rfl

/-- A value that no step of a stretch changes is constant on it. -/
theorem eq_of_frozen {x : ℕ → α} {a b : ℕ} (h : ∀ i, a ≤ i → i < b → x (i + 1) = x i) {i : ℕ}
    (hai : a ≤ i) (hib : i ≤ b) : x i = x a := by
  induction i, hai using Nat.le_induction with
  | base => rfl
  | succ i hai ih => rw [h i hai (by omega), ih (by omega)]

/-- A stretch that applies the rounds in turn computes their iteration. -/
theorem eq_steps {f : ℕ → α → α} {x : ℕ → α} {a k : ℕ}
    (h : ∀ i, i < k → x (a + i + 1) = f i (x (a + i))) : x (a + k) = steps f k (x a) := by
  induction k with
  | zero => rfl
  | succ k ih => rw [← add_assoc, h k (by omega), ih fun i hi => h i (by omega), steps_succ]

/-- A loop that writes `n` rows from row `a` on, each from the row before it and from
its own old value. -/
def writeRows (g : ℕ → α → α → α) (a n : ℕ) (rows : ℕ → α) : ℕ → α :=
  steps (fun k rows => Function.update rows (a + k) (g k (rows (a + k - 1)) (rows (a + k)))) n rows

variable {g : ℕ → α → α → α} {a n : ℕ} {rows : ℕ → α}

theorem writeRows_succ : writeRows g a (n + 1) rows =
    Function.update (writeRows g a n rows) (a + n)
      (g n (writeRows g a n rows (a + n - 1)) (writeRows g a n rows (a + n))) := rfl

/-- The loop writes no other rows. -/
theorem writeRows_of_not_mem {r : ℕ} (hr : r < a ∨ a + n ≤ r) :
    writeRows g a n rows r = rows r := by
  induction n with
  | zero => rfl
  | succ n ih =>
      rw [writeRows_succ, Function.update_of_ne (by omega), ih (by omega)]

/-- Each row is written once, from the final row before it. -/
theorem writeRows_eq {k : ℕ} (ha : 0 < a) (hk : k < n) :
    writeRows g a n rows (a + k) = g k (writeRows g a n rows (a + k - 1)) (rows (a + k)) := by
  induction n with
  | zero => omega
  | succ n ih =>
      rw [writeRows_succ, Function.update_of_ne (by omega : a + k - 1 ≠ a + n)]
      rcases Nat.lt_succ_iff_lt_or_eq.1 hk with hlt | rfl
      · rw [Function.update_of_ne (by omega), ih hlt]
      · rw [Function.update_self, writeRows_of_not_mem (r := a + k) (by omega)]

/-- A loop that does not look at the row before. -/
theorem writeRows_map {f : ℕ → α → α} {k : ℕ} (hk : k < n) :
    writeRows (fun k _ => f k) a n rows (a + k) = f k (rows (a + k)) := by
  induction n with
  | zero => omega
  | succ n ih =>
      rw [writeRows_succ]
      rcases Nat.lt_succ_iff_lt_or_eq.1 hk with hlt | rfl
      · rw [Function.update_of_ne (by omega), ih hlt]
      · rw [Function.update_self, writeRows_of_not_mem (r := a + k) (by omega)]

/-- A loop over stretches of `n` rows, each changed by a function of its own. -/
theorem steps_writeRows_eq {f : ℕ → α → α} (hn : 0 < n) (m r : ℕ) :
    steps (fun d => writeRows (fun _ _ => f d) (a + n * d) n) m rows r =
      if a ≤ r ∧ r < a + n * m then f ((r - a) / n) (rows r) else rows r := by
  induction m with
  | zero => rw [steps_zero, if_neg (by omega)]
  | succ m ih =>
      rw [steps_succ]
      have hmul : n * (m + 1) = n * m + n := Nat.mul_succ n m
      by_cases hlast : a + n * m ≤ r ∧ r < a + n * m + n
      · obtain ⟨k, rfl⟩ := Nat.exists_eq_add_of_le hlast.1
        have hk : k < n := by omega
        have hdiv : (a + n * m + k - a) / n = m := by
          rw [Nat.add_assoc, Nat.add_sub_cancel_left, Nat.mul_add_div hn, Nat.div_eq_of_lt hk,
            Nat.add_zero]
        rw [writeRows_map (f := fun _ => f m) hk, ih, if_neg (by omega), if_pos (by omega), hdiv]
      · rw [writeRows_of_not_mem (by omega), ih]
        by_cases hr : a ≤ r ∧ r < a + n * m
        · rw [if_pos hr, if_pos (by omega)]
        · rw [if_neg hr, if_neg (by omega)]

end Stretches

/-- An accumulator that adds the bits of a number holds the number up to the power of
two reached. -/
theorem acc_eq_of_bits [CommRing F] (x : ℕ) (bit acc pow : ℕ → F) (a k : ℕ)
    (hbit : ∀ i, i < k → bit (a + i) = ((x / 2 ^ i % 2 : ℕ) : F))
    (hacc : ∀ i, i < k → acc (a + i + 1) = acc (a + i) + bit (a + i) * pow (a + i))
    (hpow : ∀ i, i < k → pow (a + i + 1) = pow (a + i) + pow (a + i))
    (hacc₀ : acc a = 0) (hpow₀ : pow a = 1) :
    pow (a + k) = 2 ^ k ∧ acc (a + k) = ((x % 2 ^ k : ℕ) : F) := by
  induction k with
  | zero => exact ⟨by simp [hpow₀], by simp [hacc₀, Nat.mod_one]⟩
  | succ k ih =>
      obtain ⟨hp, ha⟩ := ih (fun i hi => hbit i (by omega)) (fun i hi => hacc i (by omega))
        fun i hi => hpow i (by omega)
      refine ⟨?_, ?_⟩
      · rw [← add_assoc, hpow k (by omega), hp]
        ring
      · rw [← add_assoc, hacc k (by omega), ha, hp, hbit k (by omega), Nat.mod_pow_succ]
        push_cast
        ring

/-- An accumulator that adds each bit times the next power of two holds, after
`k` bits, a number below `2 ^ k`. -/
theorem exists_nat_of_bits [CommRing F] (bit acc pow : ℕ → F) (a k : ℕ)
    (hbit : ∀ i, i < k → bit (a + i) = 0 ∨ bit (a + i) = 1)
    (hacc : ∀ i, i < k → acc (a + i + 1) = acc (a + i) + bit (a + i) * pow (a + i))
    (hpow : ∀ i, i < k → pow (a + i + 1) = pow (a + i) + pow (a + i))
    (hacc₀ : acc a = 0) (hpow₀ : pow a = 1) :
    pow (a + k) = 2 ^ k ∧ ∃ v : ℕ, v < 2 ^ k ∧ acc (a + k) = v := by
  induction k with
  | zero => exact ⟨by simp [hpow₀], 0, by simp [hacc₀]⟩
  | succ k ih =>
      obtain ⟨hp, v, hv, hav⟩ := ih (fun i hi => hbit i (by omega))
        (fun i hi => hacc i (by omega)) fun i hi => hpow i (by omega)
      refine ⟨?_, ?_⟩
      · rw [← add_assoc, hpow k (by omega), hp]
        ring
      · rw [← add_assoc, hacc k (by omega), hav, hp]
        rcases hbit k (by omega) with h0 | h1
        · exact ⟨v, by rw [pow_succ]; omega, by rw [h0]; ring⟩
        · exact ⟨v + 2 ^ k, by rw [pow_succ]; omega, by rw [h1]; push_cast; ring⟩

/-- A Boolean constraint. -/
theorem mul_sub_one_eq_zero_iff [Field F] {x : F} : x * (x - 1) = 0 ↔ x = 0 ∨ x = 1 := by
  rw [mul_eq_zero, sub_eq_zero]

end Air

end NullaRelay
