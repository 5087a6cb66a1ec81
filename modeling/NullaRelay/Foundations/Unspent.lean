import Mathlib.Algebra.BigOperators.Group.Finset.Basic
import Mathlib.Algebra.BigOperators.Intervals
import Mathlib.Algebra.Group.Nat.Defs
import Mathlib.Algebra.Order.BigOperators.Group.List
import Mathlib.Algebra.Order.Monoid.Canonical.Defs
import Mathlib.Data.List.GetD

/-!
# Unspent notes

A pool of notes is the list of all notes that were ever added, and the positions of
the spent ones. `unspent value notes spent` sums the values of the others: it grows by
the value of a note that is added, and shrinks by the value of a note that is spent.
`worth value live notes` sums the values of the notes that no mark kills.
-/

namespace NullaRelay.Unspent

variable {ν M : Type*} [AddCommMonoid M] {value : ν → M} {notes : List ν} {spent : List ℕ}

/-- The value at a position, zero beyond the end. -/
def valueAt (value : ν → M) (notes : List ν) (j : ℕ) : M := ((notes[j]?).map value).getD 0

/-- The sum of the values at the positions that are not spent. -/
def unspent (value : ν → M) (notes : List ν) (spent : List ℕ) : M :=
  ∑ j ∈ Finset.range notes.length, if j ∈ spent then 0 else valueAt value notes j

@[simp] theorem unspent_nil (spent : List ℕ) : unspent value [] spent = 0 := rfl

theorem valueAt_append_of_lt {j : ℕ} (hj : j < notes.length) (n : ν) :
    valueAt value (notes ++ [n]) j = valueAt value notes j := by
  rw [valueAt, valueAt, List.getElem?_append_left hj]

theorem valueAt_append_length (n : ν) :
    valueAt value (notes ++ [n]) notes.length = value n := by
  simp [valueAt]

/-- A new note adds its value. -/
theorem unspent_add (hspent : ∀ j ∈ spent, j < notes.length) (n : ν) :
    unspent value (notes ++ [n]) spent = unspent value notes spent + value n := by
  have hlast : notes.length ∉ spent := fun h => lt_irrefl _ (hspent _ h)
  have hlength : (notes ++ [n]).length = notes.length + 1 := by simp
  rw [unspent, hlength, Finset.sum_range_succ, if_neg hlast, valueAt_append_length]
  congr 1
  refine Finset.sum_congr rfl fun j hj => ?_
  rw [valueAt_append_of_lt (Finset.mem_range.1 hj)]

/-- Spending a note takes its value away. -/
theorem unspent_spend {j : ℕ} {n : ν} (hj : notes[j]? = some n) (hfresh : j ∉ spent) :
    unspent value notes spent = value n + unspent value notes (spent ++ [j]) := by
  have hlt : j < notes.length := (List.getElem?_eq_some_iff.1 hj).1
  have hmem : j ∈ Finset.range notes.length := Finset.mem_range.2 hlt
  have hvalue : valueAt value notes j = value n := by simp [valueAt, hj]
  rw [unspent, unspent, ← Finset.add_sum_erase _ _ hmem, ← Finset.add_sum_erase _ _ hmem,
    if_neg hfresh, hvalue, if_pos (by simp), zero_add]
  congr 1
  refine Finset.sum_congr rfl fun k hk => ?_
  have hne : k ≠ j := Finset.ne_of_mem_erase hk
  simp [hne]

/-- The pool is worth at least each note that is not spent. -/
theorem value_le_unspent [LE M] [CanonicallyOrderedAdd M] (value : ν → M) {j : ℕ} {n : ν}
    (hj : notes[j]? = some n) (hfresh : j ∉ spent) : value n ≤ unspent value notes spent := by
  rw [unspent_spend hj hfresh]
  exact le_self_add

/-! Where the spent notes are told by a mark on the note itself, any number of notes may
share a mark: spending one takes away its value at least. -/

section Live

variable {live live' : ν → Prop} [DecidablePred live] [DecidablePred live']

/-- The sum of the values of the live notes. -/
def worth (value : ν → M) (live : ν → Prop) [DecidablePred live] (notes : List ν) : M :=
  (notes.map fun n => if live n then value n else 0).sum

@[simp] theorem worth_nil : worth value live [] = 0 := rfl

theorem worth_append (notes more : List ν) :
    worth value live (notes ++ more) = worth value live notes + worth value live more := by
  rw [worth, List.map_append, List.sum_append]
  rfl

theorem worth_cons (n : ν) (notes : List ν) : worth value live (n :: notes) =
    (if live n then value n else 0) + worth value live notes := by
  rw [worth, List.map_cons, List.sum_cons]
  rfl

variable [PartialOrder M] [CanonicallyOrderedAdd M]

theorem worth_singleton_le (n : ν) : worth value live [n] ≤ value n := by
  rw [worth_cons, worth_nil, add_zero]
  split_ifs
  · exact le_rfl
  · exact zero_le

variable [IsOrderedAddMonoid M]

theorem worth_le_sum (notes : List ν) : worth value live notes ≤ (notes.map value).sum := by
  refine List.sum_le_sum fun n _ => ?_
  split_ifs
  · exact le_rfl
  · exact zero_le

/-- More marks leave less. -/
theorem worth_mono (hlive : ∀ n ∈ notes, live' n → live n) :
    worth value live' notes ≤ worth value live notes := by
  refine List.sum_le_sum fun n hn => ?_
  by_cases h : live' n
  · rw [if_pos h, if_pos (hlive n hn h)]
  · rw [if_neg h]
    exact zero_le

/-- Spending a live note takes away its value at least. -/
theorem worth_spend {n : ν} (hn : n ∈ notes) (h : live n) (h' : ¬ live' n)
    (hlive : ∀ m ∈ notes, live' m → live m) :
    value n + worth value live' notes ≤ worth value live notes := by
  obtain ⟨before, after, rfl⟩ := List.append_of_mem hn
  have hbefore := @worth_mono _ _ _ value before live live' _ _ _ _ _ fun m hm =>
    hlive m (List.mem_append_left _ hm)
  have hafter := @worth_mono _ _ _ value after live live' _ _ _ _ _ fun m hm =>
    hlive m (List.mem_append_right _ (List.mem_cons_of_mem _ hm))
  calc
    value n + worth value live' (before ++ n :: after) =
        worth value live' before + (value n + worth value live' after) := by
      rw [worth_append, worth_cons, if_neg h', zero_add, add_left_comm]
    _ ≤ worth value live before + (value n + worth value live after) :=
      add_le_add hbefore (add_le_add le_rfl hafter)
    _ = worth value live (before ++ n :: after) := by
      rw [worth_append, worth_cons, if_pos h]

/-- Spending several live notes takes away their values at least. -/
theorem worth_spend_all {taken : List ν} (hnodup : taken.Nodup) (htaken : ∀ n ∈ taken, n ∈ notes)
    (h : ∀ n ∈ taken, live n) (h' : ∀ n ∈ taken, ¬ live' n)
    (hlive : ∀ m ∈ notes, live' m → live m) :
    (taken.map value).sum + worth value live' notes ≤ worth value live notes := by
  classical
  induction taken generalizing live with
  | nil =>
      rw [List.map_nil, List.sum_nil, zero_add]
      exact worth_mono hlive
  | cons n taken ih =>
      obtain ⟨hn, hnodup⟩ := List.nodup_cons.1 hnodup
      rw [List.forall_mem_cons] at htaken h h'
      -- after the first note, the live ones are those from before apart from it
      have hrest := @ih (fun m => live m ∧ m ≠ n) _ hnodup htaken.2
        (fun m hm => ⟨h.2 m hm, fun heq => hn (heq ▸ hm)⟩) h'.2
        (fun m hm hm' => ⟨hlive m hm hm', fun heq => h'.1 (heq ▸ hm')⟩)
      have hfirst := @worth_spend _ _ _ value notes live (fun m => live m ∧ m ≠ n) _ _ _ _ _ n
        htaken.1 h.1 (fun hdead => hdead.2 rfl) fun m _ hm => hm.1
      rw [List.map_cons, List.sum_cons, add_assoc]
      exact (add_le_add le_rfl hrest).trans hfirst

end Live

end NullaRelay.Unspent
