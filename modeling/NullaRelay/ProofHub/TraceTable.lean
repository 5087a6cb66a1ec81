import NullaRelay.ProofHub.Poseidon

/-!
# The tables that the provers fill

A table by row and column, filled by loops over rows. The first four columns hold
the state of the permutation. A block of a trace runs the rounds of one permutation
from the row after its first and holds the result in the rows after that; it writes
no other column and no other row.
-/

namespace NullaRelay.ProofHub

open Air

/-- A table of field elements by row and column. -/
abbrev Table := ℕ → ℕ → BaseElement

section Cells

/-- `cols[c][r] = x`. -/
def setCell (cols : Table) (c r : ℕ) (x : BaseElement) : Table :=
  Function.update cols r (Function.update (cols r) c x)

/-- The columns of the permutation in a row. -/
def stateAt (cols : Table) (r : ℕ) : PoseidonState := fun i => cols r i

/-- A row with these columns of the permutation. -/
def withState (s : PoseidonState) (row : ℕ → BaseElement) : ℕ → BaseElement := fun c =>
  if h : c < 4 then s ⟨c, h⟩ else row c

/-- `cols[0..4][r] = s`. -/
def setState (cols : Table) (r : ℕ) (s : PoseidonState) : Table :=
  Function.update cols r (withState s (cols r))

/-- `for r in a..a + n { cols[c][r] = x }`. -/
def fillColumn (cols : Table) (c a n : ℕ) (x : BaseElement) : Table :=
  writeRows (fun _ _ row => Function.update row c x) a n cols

variable {cols : Table} {a c n r : ℕ} {s : PoseidonState} {x : BaseElement}

theorem setCell_apply (c' r' : ℕ) :
    setCell cols c r x r' c' = if r' = r ∧ c' = c then x else cols r' c' := by
  unfold setCell
  by_cases hr : r' = r
  · subst hr
    by_cases hc : c' = c
    · simp [hc]
    · simp [hc]
  · simp [hr]

theorem withState_of_le {row : ℕ → BaseElement} (hc : 4 ≤ c) : withState s row c = row c :=
  dif_neg (not_lt.2 hc)

@[simp] theorem stateAt_setState : stateAt (setState cols r s) r = s := by
  funext i
  simp [stateAt, setState, withState]

theorem setState_of_ne {r' : ℕ} (hr : r' ≠ r) : setState cols r s r' = cols r' :=
  Function.update_of_ne hr _ _

theorem setState_column (hc : 4 ≤ c) (r' : ℕ) : setState cols r s r' c = cols r' c := by
  by_cases hr : r' = r
  · subst hr
    rw [setState, Function.update_self, withState_of_le hc]
  · rw [setState_of_ne hr]

/-- A loop keeps the columns that its body keeps. -/
theorem writeRows_column {g : ℕ → (ℕ → BaseElement) → (ℕ → BaseElement) → ℕ → BaseElement}
    (hg : ∀ k prev row, g k prev row c = row c) (cols : Table) (a n r : ℕ) :
    writeRows g a n cols r c = cols r c := by
  induction n with
  | zero => rfl
  | succ n ih =>
      rw [writeRows_succ]
      by_cases hr : r = a + n
      · subst hr
        rw [Function.update_self, hg, writeRows_of_not_mem (by omega)]
      · rw [Function.update_of_ne hr, ih]

theorem fillColumn_apply (r' c' : ℕ) :
    fillColumn cols c a n x r' c' = if a ≤ r' ∧ r' < a + n ∧ c' = c then x else cols r' c' := by
  unfold fillColumn
  by_cases hr : a ≤ r' ∧ r' < a + n
  · obtain ⟨k, rfl⟩ := Nat.exists_eq_add_of_le hr.1
    have hk : k < n := by omega
    have hrow : writeRows (fun _ _ row => Function.update row c x) a n cols (a + k) =
        Function.update (cols (a + k)) c x :=
      writeRows_map (f := fun _ (row : ℕ → BaseElement) => Function.update row c x) hk
    rw [hrow]
    by_cases hc : c' = c
    · subst hc
      simp [hr]
    · simp [hc]
  · rw [writeRows_of_not_mem (by omega), if_neg (by omega)]

end Cells

section Blocks

variable (blake3 : List UInt8 → U8Array 32)

/-- `run_perm_rows`: the rounds of the permutation, each row from the one before. -/
def runPermRows (cols : Table) (startRow : ℕ) : Table :=
  writeRows (fun k prev => withState (poseidonEvalRoundBase blake3 k fun i => prev i))
    (startRow + 1) 64 cols

/-- `freeze_state_rows`: the state of the row before, in a stretch of rows. -/
def freezeStateRows (cols : Table) (fromRow toRow : ℕ) : Table :=
  writeRows (fun _ prev => withState fun i => prev i) fromRow (toRow + 1 - fromRow) cols

/-- The rows of a block: the rounds from row `a + 1` on, and the result held up to
row `e`. -/
structure IsBlock (cols : Table) (a e : ℕ) : Prop where
  round : ∀ k, k < 64 →
    stateAt cols (a + 1 + k + 1) = poseidonEvalRoundBase blake3 k (stateAt cols (a + 1 + k))
  hold : ∀ r, a + 65 ≤ r → r < e → stateAt cols (r + 1) = stateAt cols r

/-- What the loops of a block do to the table: they write the block, and nothing
else. -/
structure RunsBlock (cols out : Table) (a e : ℕ) : Prop where
  outside : ∀ r, r ≤ a + 1 ∨ e < r → out r = cols r
  columns : ∀ r c, 4 ≤ c → out r c = cols r c
  block : IsBlock blake3 out a e

variable {blake3} {cols : Table} {a b c e r : ℕ}

theorem runPermRows_column (hc : 4 ≤ c) (cols : Table) (a r : ℕ) :
    runPermRows blake3 cols a r c = cols r c :=
  writeRows_column (fun _ _ _ => withState_of_le hc) _ _ _ _

theorem freezeStateRows_column (hc : 4 ≤ c) (cols : Table) (a b r : ℕ) :
    freezeStateRows cols a b r c = cols r c :=
  writeRows_column (fun _ _ _ => withState_of_le hc) _ _ _ _

theorem freezeStateRows_of_not_mem (hr : r < a ∨ b < r) (hab : a ≤ b + 1) :
    freezeStateRows cols a b r = cols r :=
  writeRows_of_not_mem (by omega)

theorem stateAt_freezeStateRows (ha : 0 < a) (har : a ≤ r) (hrb : r ≤ b) :
    stateAt (freezeStateRows cols a b) r = stateAt (freezeStateRows cols a b) (r - 1) := by
  obtain ⟨k, rfl⟩ := Nat.exists_eq_add_of_le har
  funext i
  rw [stateAt, freezeStateRows, writeRows_eq ha (by omega)]
  exact dif_pos i.isLt

theorem runsBlock (cols : Table) (he : a + 65 ≤ e) :
    RunsBlock blake3 cols (freezeStateRows (runPermRows blake3 cols (a + 1)) (a + 66) e) a e := by
  constructor
  · intro r hr
    rw [freezeStateRows_of_not_mem (by omega) (by omega), runPermRows,
      writeRows_of_not_mem (by omega)]
  · intro r c hc
    rw [freezeStateRows_column hc, runPermRows_column hc]
  constructor
  · intro k hk
    have hrow (r : ℕ) (hr : r < a + 66) :
        stateAt (freezeStateRows (runPermRows blake3 cols (a + 1)) (a + 66) e) r =
          stateAt (runPermRows blake3 cols (a + 1)) r := by
      unfold stateAt
      rw [freezeStateRows_of_not_mem (.inl hr) (by omega)]
    rw [hrow _ (by omega), hrow _ (by omega)]
    have hsucc : a + 1 + k + 1 = a + 1 + 1 + k := by omega
    have hprev : a + 1 + 1 + k - 1 = a + 1 + k := by omega
    funext i
    rw [hsucc, stateAt, runPermRows, writeRows_eq (by omega) hk, hprev]
    exact dif_pos i.isLt
  · intro r hlo hhi
    exact stateAt_freezeStateRows (r := r + 1) (by omega) (by omega) (by omega)

/-- A block stays one while nothing writes its rows. -/
theorem IsBlock.congr {out : Table} (h : IsBlock blake3 cols a e) (he : a + 65 ≤ e)
    (hrows : ∀ r, a < r → r ≤ e → out r = cols r) : IsBlock blake3 out a e := by
  have hstate (r : ℕ) (hlo : a < r) (hhi : r ≤ e) : stateAt out r = stateAt cols r := by
    unfold stateAt
    rw [hrows r hlo hhi]
  constructor
  · intro k hk
    rw [hstate _ (by omega) (by omega), hstate _ (by omega) (by omega)]
    exact h.round k hk
  · intro r hlo hhi
    rw [hstate _ (by omega) (by omega), hstate _ (by omega) (by omega)]
    exact h.hold r hlo hhi

end Blocks

end NullaRelay.ProofHub
