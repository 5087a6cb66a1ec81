import NullaRelay.ProofHub.SpendTrace

/-!
# The blocks of a spend's trace

Block by block the simulation extends the rows whose steps satisfy the constraints on
the state, over columns that were filled before. `Built m` says so of a table after `m`
blocks; a block that starts as its link asks for leads from one to the next.
-/

namespace NullaRelay.ProofHub.SpendAir

open Air V2

variable {blake3 : List UInt8 → U8Array 32} {pi : SpendPI} {w : SpendWitness}
  {cols cols' out : Table} {a e m r : ℕ}

variable (w) in
/-- The columns that are filled first. -/
structure Filled (cols : Table) : Prop where
  blinding : ∀ r, r < 8192 → (cols r 7, cols r 8) = unpack w.b
  values : ∀ r, r < 8192 → cols r 12 = ofU64 w.v ∧ cols r 13 = ofU64 w.cv
  bits : ∀ r, cols r 4 =
    if 385 ≤ r ∧ r < 5505 then BaseElement.new (w.bit ((r - 385) / 256))
    else if r < 64 then bitElement w.v r else if r < 128 then bitElement w.cv (r - 64) else 0
  siblings : ∀ r, r < 8192 → (cols r 9, cols r 10) =
    if r < 385 then (0, 0) else if r < 5505 then w.sibling ((r - 385) / 256) else unpack w.cb
  first : cols 0 5 = 0 ∧ cols 0 6 = 1
  second : cols 64 5 = 0 ∧ cols 64 6 = 1
  sums : ∀ i, IsRstep i →
    cols (i + 1) 5 = cols i 5 + cols i 4 * cols i 6 ∧ cols (i + 1) 6 = cols i 6 + cols i 6

theorem filled_fillColumns : Filled w (fillColumns w) := by
  have hsums := @fillSums_rows (fillBits w (writeRows (fun _ _ => carries w) 0 8192 fun _ _ => 0))
  have hcarry (r : ℕ) (hr : r < 8192) :
      writeRows (fun _ _ => carries w) 0 8192 (fun _ _ => 0) r = carries w fun _ => 0 := by
    have hrow : writeRows (fun _ _ => carries w) 0 8192 (fun _ _ => 0) (0 + r) =
        carries w fun _ => 0 := writeRows_map (f := fun _ => carries w) hr
    rwa [Nat.zero_add] at hrow
  have hearly (r c : ℕ) (h7 : c ≠ 7) (h8 : c ≠ 8) (h12 : c ≠ 12) (h13 : c ≠ 13) :
      writeRows (fun _ _ => carries w) 0 8192 (fun _ _ => 0) r c = 0 :=
    writeRows_column (fun _ _ _ => by
      rw [carries, Function.update_of_ne h13, Function.update_of_ne h12, Function.update_of_ne h8,
        Function.update_of_ne h7]) _ _ _ _
  constructor
  · intro r hr
    simp only [fillColumns, ne_eq, Nat.reduceEqDiff, not_false_eq_true, fillSiblings_column,
      fillSums_column, fillBits_column, hcarry r hr]
    simp [carries]
  · intro r hr
    simp only [fillColumns, ne_eq, Nat.reduceEqDiff, not_false_eq_true, fillSiblings_column,
      fillSums_column, fillBits_column, hcarry r hr]
    simp [carries]
  · intro r
    simp only [fillColumns, ne_eq, Nat.reduceEqDiff, not_false_eq_true, fillSiblings_column,
      fillSums_column, fillBits_bit, hearly]
  · intro r hr
    rw [fillColumns, fillSiblings_sibling hr]
    simp only [ne_eq, Nat.reduceEqDiff, not_false_eq_true, fillSums_column, fillBits_column,
      hearly]
  · simpa only [fillColumns, ne_eq, Nat.reduceEqDiff, not_false_eq_true, fillSiblings_column]
      using hsums.1
  · simpa only [fillColumns, ne_eq, Nat.reduceEqDiff, not_false_eq_true, fillSiblings_column]
      using hsums.2.1
  · simpa only [fillColumns, ne_eq, Nat.reduceEqDiff, not_false_eq_true, fillSiblings_column]
      using hsums.2.2

theorem fillColumns_right : fillColumns w r 11 = 0 := by
  rw [fillColumns, fillSiblings_column (by decide) (by decide),
    fillSums_column (by decide) (by decide), fillBits_column (by decide)]
  refine writeRows_column (fun _ _ _ => ?_) _ _ _ _
  simp [carries]

theorem Filled.congr (h : Filled w cols)
    (hcols : ∀ r c, 4 ≤ c → c ≠ 11 → cols' r c = cols r c) : Filled w cols' := by
  constructor
  · intro r hr
    rw [hcols r 7 (by decide) (by decide), hcols r 8 (by decide) (by decide)]
    exact h.blinding r hr
  · intro r hr
    rw [hcols r 12 (by decide) (by decide), hcols r 13 (by decide) (by decide)]
    exact h.values r hr
  · intro r
    rw [hcols r 4 (by decide) (by decide)]
    exact h.bits r
  · intro r hr
    rw [hcols r 9 (by decide) (by decide), hcols r 10 (by decide) (by decide)]
    exact h.siblings r hr
  · rw [hcols 0 5 (by decide) (by decide), hcols 0 6 (by decide) (by decide)]
    exact h.first
  · rw [hcols 64 5 (by decide) (by decide), hcols 64 6 (by decide) (by decide)]
    exact h.second
  · intro i hi
    rw [hcols _ 5 (by decide) (by decide), hcols _ 5 (by decide) (by decide),
      hcols _ 6 (by decide) (by decide), hcols _ 6 (by decide) (by decide),
      hcols _ 4 (by decide) (by decide)]
    exact h.sums i hi

/-- A row of the table as a row of the trace. -/
def rowAt (cols : Table) (r : ℕ) : Row := fun c => cols r c

theorem state_rowAt : state (rowAt cols r) = stateAt cols r := by
  funext j
  fin_cases j <;> rfl

theorem rowAt_congr (h : cols' r = cols r) : rowAt cols' r = rowAt cols r := by
  unfold rowAt
  rw [h]

theorem stateAt_congr (h : cols' r = cols r) : stateAt cols' r = stateAt cols r := by
  unfold stateAt
  rw [h]

variable (blake3 pi w) in
/-- The table after `m` blocks of the simulation. -/
structure Built (m : ℕ) (cols : Table) : Prop where
  filled : Filled w cols
  initial : stateAt cols 0 = ![nullifierIv blake3, (unpack w.b).1, (unpack w.b).2, 0]
  states : ∀ i, i < 128 * m → StateStep blake3 pi i (rowAt cols i) (rowAt cols (i + 1))
  right : ∀ i, i < 128 * m → RightStep i (rowAt cols i) (rowAt cols (i + 1))

theorem Built.congr (h : Built blake3 pi w m cols) (hrows : ∀ r, r ≤ 128 * m → cols' r = cols r)
    (hcols : ∀ r c, 4 ≤ c → c ≠ 11 → cols' r c = cols r c) : Built blake3 pi w m cols' := by
  have hpair (i : ℕ) (hi : i < 128 * m) :
      rowAt cols' i = rowAt cols i ∧ rowAt cols' (i + 1) = rowAt cols (i + 1) :=
    ⟨rowAt_congr (hrows i (by omega)), rowAt_congr (hrows (i + 1) (by omega))⟩
  constructor
  · exact h.filled.congr hcols
  · rw [stateAt_congr (hrows 0 (Nat.zero_le _))]
    exact h.initial
  · intro i hi
    rw [(hpair i hi).1, (hpair i hi).2]
    exact h.states i hi
  · intro i hi
    rw [(hpair i hi).1, (hpair i hi).2]
    exact h.right i hi

/-- The next block: its link satisfies the constraints, and so do the rounds and the
rows that hold the result. -/
theorem Built.block (h : Built blake3 pi w m cols) (hm : m < 45) (ha : a = 128 * m)
    (he : a + 128 ≤ e) (hout : RunsBlock blake3 cols out a e)
    (hstate : StateStep blake3 pi a (rowAt cols a) (rowAt cols (a + 1)))
    (hright : RightStep a (rowAt cols a) (rowAt cols (a + 1)))
    (hcarried : ∀ i, a < i → i < a + 128 → cols (i + 1) 11 = cols i 11) :
    Built blake3 pi w (m + 1) out := by
  subst ha
  have hearly (r : ℕ) (hr : r ≤ 128 * m + 1) : rowAt out r = rowAt cols r :=
    rowAt_congr (hout.outside r (.inl hr))
  have hmod (i : ℕ) (hlo : 128 * m < i) (hhi : i < 128 * m + 128) : ¬ IsLmrk i := by
    rw [isLmrk_iff]
    omega
  constructor
  · exact h.filled.congr fun r c hc _ => hout.columns r c hc
  · rw [stateAt_congr (hout.outside 0 (.inl (Nat.zero_le _)))]
    exact h.initial
  · intro i hi
    rcases Nat.lt_trichotomy i (128 * m) with hlt | rfl | hgt
    · rw [hearly i (by omega), hearly (i + 1) (by omega)]
      exact h.states i hlt
    · rw [hearly _ (by omega), hearly _ (by omega)]
      exact hstate
    · obtain ⟨k, rfl⟩ := Nat.exists_eq_add_of_le (Nat.succ_le_of_lt hgt)
      by_cases hk : k < 64
      · have hkind : kind (128 * m + 1 + k) = .rnd :=
          (schedule _).1.1 ⟨show _ / 128 < 45 by omega, show 1 ≤ _ % 128 ∧ _ % 128 ≤ 64 by omega⟩
        have hround : (128 * m + 1 + k) % block - 1 = k := by
          unfold block
          omega
        rw [StateStep, hkind, state_rowAt, state_rowAt, hround]
        exact hout.block.round k hk
      · have hkind : kind (128 * m + 1 + k) = .frz :=
          (schedule _).2.1.1 (.inl ⟨show _ / 128 < 45 by omega, show 65 ≤ _ % 128 by omega⟩)
        rw [StateStep, hkind, state_rowAt, state_rowAt]
        exact hout.block.hold _ (by omega) (by omega)
  · intro i hi
    rcases Nat.lt_trichotomy i (128 * m) with hlt | rfl | hgt
    · rw [hearly i (by omega), hearly (i + 1) (by omega)]
      exact h.right i hlt
    · rw [hearly _ (by omega), hearly _ (by omega)]
      exact hright
    · rw [RightStep, if_neg (hmod i hgt (by omega))]
      show out (i + 1) 11 = out i 11
      rw [hout.columns _ 11 (by decide), hout.columns _ 11 (by decide)]
      exact hcarried i hgt (by omega)

variable (blake3) in
/-- The table after a block that starts from a given state. -/
def runBlock (cols : Table) (a e : ℕ) (start : PoseidonState) : Table :=
  freezeStateRows (runPermRows blake3 (setState cols (a + 1) start) (a + 1)) (a + 66) e

theorem runBlock_column {c : ℕ} (hc : 4 ≤ c) (cols : Table) (start : PoseidonState) (r : ℕ) :
    runBlock blake3 cols a e start r c = cols r c := by
  rw [runBlock, freezeStateRows_column hc, runPermRows_column hc, setState_column hc]

/-- A block other than the first of a level, where the right half waits. -/
theorem Built.next (h : Built blake3 pi w m cols) (hm : m < 45) (ha : a = 128 * m)
    (he : a + 128 ≤ e) (hlink : ¬ IsLmrk a) {start : PoseidonState}
    (hstate : ∀ n : Row, state n = start → (∀ c : Fin 14, 4 ≤ c.val → n c = cols (a + 1) c) →
      StateStep blake3 pi a (rowAt cols a) n)
    (hcarried : ∀ i, a ≤ i → i < a + 128 → cols (i + 1) 11 = cols i 11) :
    Built blake3 pi w (m + 1) (runBlock blake3 cols a e start) := by
  have hrow : rowAt (setState cols (a + 1) start) a = rowAt cols a :=
    rowAt_congr (setState_of_ne (by omega))
  have hready : Built blake3 pi w m (setState cols (a + 1) start) :=
    h.congr (fun r hr => setState_of_ne (by omega)) fun r c hc _ => setState_column hc r
  refine hready.block hm ha he (runsBlock _ (by omega)) ?_ ?_ fun i hlo hhi => ?_
  · rw [hrow]
    refine hstate _ ?_ fun c hc => setState_column hc _
    rw [state_rowAt, stateAt_setState]
  · rw [RightStep, if_neg hlink, hrow]
    exact (setState_column (by decide) _).trans (hcarried a le_rfl (by omega))
  · rw [setState_column (by decide), setState_column (by decide)]
    exact hcarried i hlo.le hhi

theorem absorb_stateAt (p : Pair) :
    absorb (stateAt cols r) p = ![cols r 0, cols r 1 + p.1, cols r 2 + p.2, cols r 3] := rfl

/-- The key digests of the public inputs are those of the witness. -/
def SharesKeys (pi : SpendPI) (w : SpendWitness) : Prop :=
  unpack pi.pkd = unpack w.pkd ∧ unpack pi.changePkd = unpack w.cpkd

theorem built_simulateNote (hkeys : SharesKeys pi w) :
    Built blake3 pi w 3 (simulateNote blake3 w (fillColumns w)) ∧
      ∀ r, simulateNote blake3 w (fillColumns w) r 11 = 0 := by
  obtain ⟨cols₁, h₁⟩ : ∃ cols, cols = freezeStateRows (setState (fillColumns w) 0
      ![nullifierIv blake3, (unpack w.b).1, (unpack w.b).2, 0]) 1 1 := ⟨_, rfl⟩
  obtain ⟨cols₂, h₂⟩ : ∃ cols, cols = freezeStateRows (runPermRows blake3 cols₁ 1) 66 128 :=
    ⟨_, rfl⟩
  obtain ⟨cols₃, h₃⟩ : ∃ cols, cols = runBlock blake3 cols₂ 128 256
      ![noteIv blake3, ofU64 w.v, (unpack w.b).1, (unpack w.b).2] := ⟨_, rfl⟩
  obtain ⟨cols₄, h₄⟩ : ∃ cols, cols = runBlock blake3 cols₃ 256 384
      (absorb (stateAt cols₃ 256) (unpack w.pkd)) := ⟨_, rfl⟩
  have hrun : RunsBlock blake3 cols₁ cols₂ 0 128 := h₂ ▸ runsBlock cols₁ (by decide)
  have hfill (r c : ℕ) (hc : 4 ≤ c) : cols₁ r c = fillColumns w r c := by
    rw [h₁, freezeStateRows_column hc, setState_column hc]
  have hzero₁ (r : ℕ) : cols₁ r 11 = 0 := by rw [hfill r 11 (by decide), fillColumns_right]
  have hzero₂ (r : ℕ) : cols₂ r 11 = 0 := by rw [hrun.columns r 11 (by decide), hzero₁]
  have hzero₃ (r : ℕ) : cols₃ r 11 = 0 := by rw [h₃, runBlock_column (by decide), hzero₂]
  have hzero₄ (r : ℕ) : cols₄ r 11 = 0 := by rw [h₄, runBlock_column (by decide), hzero₃]
  have hnullifier : Built blake3 pi w 1 cols₂ := by
    have hready : Built blake3 pi w 0 cols₁ := by
      refine ⟨filled_fillColumns.congr fun r c hc _ => hfill r c hc, ?_, by simp, by simp⟩
      rw [h₁, stateAt_congr (freezeStateRows_of_not_mem (.inl (by decide)) (by decide)),
        stateAt_setState]
    refine hready.block (by decide) rfl le_rfl hrun ?_ ?_
      fun i _ _ => (hzero₁ (i + 1)).trans (hzero₁ i).symm
    · show state (rowAt cols₁ 1) = state (rowAt cols₁ 0)
      rw [state_rowAt, state_rowAt, h₁]
      exact stateAt_freezeStateRows (by decide) le_rfl le_rfl
    · rw [RightStep, if_neg (by rw [isLmrk_iff]; omega)]
      exact (hzero₁ 1).trans (hzero₁ 0).symm
  have hnote : Built blake3 pi w 2 cols₃ := by
    rw [h₃]
    refine hnullifier.next (by decide) rfl le_rfl (by rw [isLmrk_iff]; omega)
      (fun n hn _ => ?_) fun i _ _ => (hzero₂ (i + 1)).trans (hzero₂ i).symm
    have hb := hnullifier.filled.blinding 128 (by decide)
    have hlo : cols₂ 128 7 = (unpack w.b).1 := congrArg Prod.fst hb
    have hhi : cols₂ 128 8 = (unpack w.b).2 := congrArg Prod.snd hb
    show state n = ![noteIv blake3, cols₂ 128 12, cols₂ 128 7, cols₂ 128 8]
    rw [hn, (hnullifier.filled.values 128 (by decide)).1, hlo, hhi]
  have habsorbed : Built blake3 pi w 3 cols₄ := by
    rw [h₄]
    refine hnote.next (by decide) rfl le_rfl (by rw [isLmrk_iff]; omega)
      (fun n hn _ => ?_) fun i _ _ => (hzero₃ (i + 1)).trans (hzero₃ i).symm
    show state n = absorb (state (rowAt cols₃ 256)) (unpack pi.pkd)
    rw [hn, state_rowAt, hkeys.1]
  have htable : simulateNote blake3 w (fillColumns w) = cols₄ := by
    simp only [runBlock, Nat.reduceAdd] at h₃ h₄
    unfold simulateNote
    dsimp only
    rw [← h₁, ← h₂, ← h₃, ← absorb_stateAt, ← h₄]
  rw [htable]
  exact ⟨habsorbed, hzero₄⟩

/-- The children of a link in the table, where the next row holds the bit and the
sibling. -/
theorem link_eq {d : ℕ} {c n : Row} (hbit : n 4 = BaseElement.new (w.bit d))
    (hsib : (n 9, n 10) = w.sibling d) :
    (linkLeft c n, linkRight c n) = children w d (c 1, c 2) := by
  have hcases : w.bit d = 0 ∨ w.bit d = 1 := by
    rw [SpendWitness.bit, Nat.and_one_is_mod]
    omega
  rcases hcases with h0 | h1
  · have hn : n 4 = 0 := by rw [hbit, h0, BaseElement.new, Nat.cast_zero]
    rw [children, if_neg (by omega), ← hsib]
    simp [linkLeft, linkRight, hn]
  · have hn : n 4 = 1 := by rw [hbit, h1, BaseElement.new, Nat.cast_one]
    rw [children, if_pos h1, ← hsib]
    simp [linkLeft, linkRight, hn]

/-- The table in which the blocks of a level start: the first row of the link, and the
right half in the rows of the level. -/
theorem Built.start {base d : ℕ} {l r : Pair} (h : Built blake3 pi w (3 + 2 * d) cols)
    (hd : d < 20) (hbase : base = 384 + 256 * d)
    (hlr : children w d (cols base 1, cols base 2) = (l, r))
    (hcols : cols' = fillColumn (setState cols (base + 1) ![merkleIv blake3, l.1, l.2, r.1]) 11
      (base + 1) 256 r.2) :
    Built blake3 pi w (3 + 2 * d) cols' ∧
      StateStep blake3 pi base (rowAt cols' base) (rowAt cols' (base + 1)) ∧
      RightStep base (rowAt cols' base) (rowAt cols' (base + 1)) ∧
      ∀ i, base < i → i ≤ base + 256 → cols' i 11 = r.2 := by
  have hearly (i : ℕ) (hi : i ≤ base) : cols' i = cols i := by
    funext c
    rw [hcols, fillColumn_apply, if_neg (by omega), setState_of_ne (by omega)]
  have hcell (i c : ℕ) (hc : 4 ≤ c) : cols' i c =
      if base + 1 ≤ i ∧ i < base + 1 + 256 ∧ c = 11 then r.2 else cols i c := by
    rw [hcols, fillColumn_apply, setState_column hc]
  have hwait (i : ℕ) (hlo : base < i) (hhi : i ≤ base + 256) : cols' i 11 = r.2 := by
    rw [hcell i 11 (by decide), if_pos (by omega)]
  have hready : Built blake3 pi w (3 + 2 * d) cols' := by
    refine h.congr (fun i hi => hearly i (by omega)) fun i c hc hne => ?_
    rw [hcell i c hc, if_neg (by omega)]
  have hlink : IsLmrk base := ⟨d, hd, hbase⟩
  have hchildren : (linkLeft (rowAt cols' base) (rowAt cols' (base + 1)),
      linkRight (rowAt cols' base) (rowAt cols' (base + 1))) = (l, r) := by
    have hlevel : (base + 1 - 385) / 256 = d := by omega
    rw [rowAt_congr (hearly base le_rfl), link_eq (w := w) (d := d), ← hlr]
    · rfl
    · show cols' (base + 1) 4 = _
      rw [hready.filled.bits, if_pos (by omega), hlevel]
    · show (cols' (base + 1) 9, cols' (base + 1) 10) = _
      rw [hready.filled.siblings _ (by omega), if_neg (by omega), if_pos (by omega), hlevel]
  refine ⟨hready, ?_, ?_, hwait⟩
  · have hl : linkLeft (rowAt cols' base) (rowAt cols' (base + 1)) = l :=
      congrArg Prod.fst hchildren
    have hr : linkRight (rowAt cols' base) (rowAt cols' (base + 1)) = r :=
      congrArg Prod.snd hchildren
    have hfirst : stateAt cols' (base + 1) =
        stateAt (setState cols (base + 1) ![merkleIv blake3, l.1, l.2, r.1]) (base + 1) := by
      funext j
      rw [hcols, stateAt, fillColumn_apply, if_neg (by omega)]
      rfl
    rw [StateStep, (schedule base).2.2.2.2.1.1 hlink, state_rowAt, hl, hr, hfirst, stateAt_setState]
  · rw [RightStep, if_pos hlink]
    exact (hwait (base + 1) (by omega) (by omega)).trans
      (congrArg (fun p => p.2.2) hchildren).symm

/-- The two blocks of a level. -/
theorem Built.level {d : ℕ} (h : Built blake3 pi w (3 + 2 * d) cols) (hd : d < 20) :
    Built blake3 pi w (3 + 2 * (d + 1)) (simulateLevel blake3 w d cols) ∧
      (d = 19 → ∃ x, ∀ i, 5504 ≤ i → i < 8192 → simulateLevel blake3 w d cols i 11 = x) := by
  obtain ⟨base, hbase⟩ : ∃ base, base = 384 + 256 * d := ⟨_, rfl⟩
  obtain ⟨l, r, hlr⟩ : ∃ l r, children w d (cols base 1, cols base 2) = (l, r) := ⟨_, _, rfl⟩
  obtain ⟨cols₁, h₁⟩ : ∃ cols₁, cols₁ = fillColumn
      (setState cols (base + 1) ![merkleIv blake3, l.1, l.2, r.1]) 11 (base + 1) 256 r.2 :=
    ⟨_, rfl⟩
  obtain ⟨cols₂, h₂⟩ : ∃ cols₂, cols₂ =
      freezeStateRows (runPermRows blake3 cols₁ (base + 1)) (base + 66) (base + 128) := ⟨_, rfl⟩
  obtain ⟨cols₃, h₃⟩ : ∃ cols₃, cols₃ = runBlock blake3 cols₂ (base + 128) (base + 256)
      (absorb (stateAt cols₂ (base + 128)) (r.2, 0)) := ⟨_, rfl⟩
  have hrun : RunsBlock blake3 cols₁ cols₂ base (base + 128) := h₂ ▸ runsBlock cols₁ (by omega)
  obtain ⟨hready, hstate, hright, hwait₁⟩ := h.start hd hbase hlr h₁
  have hwait₂ (i : ℕ) (hlo : base < i) (hhi : i ≤ base + 256) : cols₂ i 11 = r.2 := by
    rw [hrun.columns i 11 (by decide), hwait₁ i hlo hhi]
  have hfirst : Built blake3 pi w (3 + 2 * d + 1) cols₂ := by
    refine hready.block (by omega) (by omega) le_rfl hrun hstate hright fun i hlo hhi => ?_
    rw [hwait₁ (i + 1) (by omega) (by omega), hwait₁ i hlo (by omega)]
  have hsecond : Built blake3 pi w (3 + 2 * d + 1 + 1) cols₃ := by
    rw [h₃]
    refine hfirst.next (by omega) (by omega) (by omega) (by rw [isLmrk_iff]; omega)
      (fun n hn _ => ?_) fun i hlo hhi => ?_
    · have hamrk : IsAmrk (base + 128) := ⟨d, hd, by rw [hbase]; rfl⟩
      have hwaiting : rowAt cols₂ (base + 128) 11 = r.2 := hwait₂ _ (by omega) (by omega)
      rw [StateStep, (schedule _).2.2.2.2.2.1.1 hamrk]
      show state n = absorb (state (rowAt cols₂ (base + 128))) (rowAt cols₂ (base + 128) 11, 0)
      rw [hn, hwaiting, state_rowAt]
    · rw [hwait₂ (i + 1) (by omega) (by omega), hwait₂ i (by omega) (by omega)]
  have htable : simulateLevel blake3 w d cols =
      if d = 19 then fillColumn cols₃ 11 (base + 257) (8192 - (base + 257)) r.2 else cols₃ := by
    have hmin : min (base + 256) (8192 - 1) - base = 256 := by omega
    have hmrk : stepMrkBase + 256 * d = base := hbase.symm
    rw [absorb_zero, runBlock] at h₃
    unfold simulateLevel
    dsimp only
    rw [hmrk, hlr]
    dsimp only
    rw [hmin, ← h₁, ← h₂]
    simp only [Nat.add_assoc, Nat.reduceAdd] at h₃ ⊢
    rw [h₃]
    rfl
  have hmore (i c : ℕ) : simulateLevel blake3 w d cols i c =
      if d = 19 ∧ base + 257 ≤ i ∧ i < 8192 ∧ c = 11 then r.2 else cols₃ i c := by
    rw [htable]
    by_cases hlast : d = 19
    · rw [if_pos hlast, fillColumn_apply]
      split_ifs <;> first | rfl | omega
    · rw [if_neg hlast, if_neg (by omega)]
  constructor
  · refine hsecond.congr (fun i hi => funext fun c => ?_) fun i c _ hne => ?_
    · rw [hmore, if_neg (by omega)]
    · rw [hmore, if_neg (by omega)]
  · intro hlast
    refine ⟨r.2, fun i hlo hhi => ?_⟩
    rw [hmore]
    by_cases hend : i = 5504
    · rw [if_neg (by omega), h₃, runBlock_column (by decide), hwait₂ i (by omega) (by omega)]
    · rw [if_pos (by omega)]

/-- The blocks of the path; the right half of the last link stays to the end. -/
theorem built_levels (hkeys : SharesKeys pi w) {n : ℕ} (hn : n ≤ 20) :
    Built blake3 pi w (3 + 2 * n)
        (steps (simulateLevel blake3 w) n (simulateNote blake3 w (fillColumns w))) ∧
      (n = 20 → ∃ x, ∀ i, 5504 ≤ i → i < 8192 →
        steps (simulateLevel blake3 w) n (simulateNote blake3 w (fillColumns w)) i 11 = x) := by
  induction n with
  | zero =>
      rw [steps_zero]
      exact ⟨(built_simulateNote hkeys).1, by simp⟩
  | succ n ih =>
      obtain ⟨hbuilt, hlast⟩ := (ih (by omega)).1.level (by omega : n < 20)
      rw [steps_succ]
      exact ⟨hbuilt, fun hn => hlast (by omega)⟩

/-- The whole table. -/
theorem built_spendTable (hkeys : SharesKeys pi w) :
    Built blake3 pi w 45 (spendTable blake3 w) ∧
      ∃ x, ∀ i, 5504 ≤ i → i < 8192 → spendTable blake3 w i 11 = x := by
  obtain ⟨hpath, hlast⟩ := @built_levels blake3 pi w hkeys 20 le_rfl
  obtain ⟨x, hright⟩ := hlast rfl
  obtain ⟨cols₁, h₁⟩ : ∃ cols, cols = steps (simulateLevel blake3 w) 20
      (simulateNote blake3 w (fillColumns w)) := ⟨_, rfl⟩
  obtain ⟨cols₂, h₂⟩ : ∃ cols, cols = runBlock blake3 cols₁ 5504 5632
      ![noteIv blake3, ofU64 w.cv, (unpack w.cb).1, (unpack w.cb).2] := ⟨_, rfl⟩
  obtain ⟨cols₃, h₃⟩ : ∃ cols, cols = runBlock blake3 cols₂ 5632 8191
      (absorb (stateAt cols₂ 5632) (unpack w.cpkd)) := ⟨_, rfl⟩
  rw [← h₁] at hpath hright
  have hwait₂ (i : ℕ) : cols₂ i 11 = cols₁ i 11 := by rw [h₂, runBlock_column (by decide)]
  have hwait₃ (i : ℕ) : cols₃ i 11 = cols₁ i 11 := by rw [h₃, runBlock_column (by decide), hwait₂]
  have hcarried (i : ℕ) (hlo : 5504 ≤ i) (hhi : i + 1 < 8192) : cols₁ (i + 1) 11 = cols₁ i 11 :=
    (hright (i + 1) (by omega) hhi).trans (hright i hlo (by omega)).symm
  have hchange : Built blake3 pi w 44 cols₂ := by
    rw [h₂]
    refine hpath.next (by decide) rfl le_rfl (by rw [isLmrk_iff]; omega)
      (fun n hn hcols => ?_) fun i hlo hhi => hcarried i hlo (by omega)
    have hsib := hpath.filled.siblings 5505 (by decide)
    rw [if_neg (by decide), if_neg (by decide)] at hsib
    have hlo : n 9 = (unpack w.cb).1 := (hcols 9 (by decide)).trans (congrArg Prod.fst hsib)
    have hhi : n 10 = (unpack w.cb).2 := (hcols 10 (by decide)).trans (congrArg Prod.snd hsib)
    rw [StateStep, (schedule 5504).2.2.2.2.2.2.1.1 rfl]
    show state n = ![noteIv blake3, cols₁ 5504 13, n 9, n 10]
    rw [hn, (hpath.filled.values 5504 (by decide)).2, hlo, hhi]
  have habsorbed : Built blake3 pi w 45 cols₃ := by
    rw [h₃]
    refine hchange.next (by decide) rfl (by decide) (by rw [isLmrk_iff]; omega)
      (fun n hn _ => ?_) fun i hlo hhi => ?_
    · rw [StateStep, (schedule 5632).2.2.2.2.2.2.2.1 rfl]
      show state n = absorb (state (rowAt cols₂ 5632)) (unpack pi.changePkd)
      rw [hn, state_rowAt, hkeys.2]
    · rw [hwait₂, hwait₂]
      exact hcarried i (by omega) (by omega)
  have htable : spendTable blake3 w = cols₃ := by
    simp only [runBlock, Nat.reduceAdd] at h₂ h₃
    unfold spendTable simulateChange stepLchg stepAchg
    dsimp only
    simp only [Nat.reduceAdd, Nat.reduceSub]
    rw [← h₁, ← h₂, ← absorb_stateAt, ← h₃]
  rw [htable]
  exact ⟨habsorbed, x, fun i hlo hhi => (hwait₃ i).trans (hright i hlo hhi)⟩

end NullaRelay.ProofHub.SpendAir
