import NullaRelay.ProofHub.SpendAir
import NullaRelay.ProofHub.TraceTable

/-!
# The trace of a v2 spend

The prover fills the table of 8192 rows in two parts. The columns of the bits, the
sums, the siblings and the carries are written first and never again. The state
columns are then simulated block by block, and with them the column that carries the
right half of each link of the path. Each block keeps what the blocks before it have
reached: every step up to the end of the block satisfies the constraints on the state.
-/

namespace NullaRelay.ProofHub.SpendAir

open Air V2

/-- What a spender knows. -/
structure SpendWitness where
  v : UInt64
  b : U8Array 32
  pkd : U8Array 32
  index : UInt32
  siblings : List.Vector (U8Array 32) 20
  cv : UInt64
  cb : U8Array 32
  cpkd : U8Array 32

namespace SpendWitness

variable (w : SpendWitness)

/-- `unpack(siblings[d])`. -/
def sibling (d : ℕ) : Pair := unpack (w.siblings.toList.getD d (U8Array.zero 32))

/-- `(index >> d) & 1`. -/
def bit (d : ℕ) : ℕ := (w.index.toNat >>> d) &&& 1

end SpendWitness

/-- `BaseElement::new((x >> i) & 1)`. -/
def bitElement (x : UInt64) (i : ℕ) : BaseElement := BaseElement.new ((x.toNat >>> i) &&& 1)

section Columns

variable (w : SpendWitness)

/-- The carries of the blinding and the values. -/
def carries (row : ℕ → BaseElement) : ℕ → BaseElement :=
  let row := Function.update (Function.update row 7 (unpack w.b).1) 8 (unpack w.b).2
  Function.update (Function.update row 12 (ofU64 w.v)) 13 (ofU64 w.cv)

def setBit (x : BaseElement) (row : ℕ → BaseElement) : ℕ → BaseElement := Function.update row 4 x

def setSibling (p : Pair) (row : ℕ → BaseElement) : ℕ → BaseElement :=
  Function.update (Function.update row 9 p.1) 10 p.2

/-- The bits of both values, and the bit of the index at each level. -/
def fillBits (cols : Table) : Table :=
  let cols := steps (fun i cols =>
    let cols := setCell cols 4 i (bitElement w.v i)
    setCell cols 4 (64 + i) (bitElement w.cv i)) 64 cols
  steps (fun d => writeRows (fun _ _ => setBit (BaseElement.new (w.bit d))) (385 + 256 * d) 256)
    20 cols

/-- `for s in a..a + 63`: the next sum and the next power of two. -/
def addBits (cols : Table) (a : ℕ) : Table :=
  writeRows (fun _ prev row =>
    Function.update (Function.update row 5 (prev 5 + prev 4 * prev 6)) 6 (prev 6 + prev 6))
    (a + 1) 63 cols

/-- Both range sums, and their last row in the rest of the table. -/
def fillSums (cols : Table) : Table :=
  let cols := setCell (setCell cols 5 0 0) 6 0 1
  let cols := addBits cols 0
  let cols := setCell (setCell cols 5 64 0) 6 64 1
  let cols := addBits cols 64
  writeRows (fun _ _ row => Function.update (Function.update row 5 (cols 127 5)) 6 (cols 127 6))
    128 (8192 - 128) cols

/-- The sibling at each level, and the blinding of the change at the end. -/
def fillSiblings (cols : Table) : Table :=
  let cols := steps (fun d => writeRows (fun _ _ => setSibling (w.sibling d)) (385 + 256 * d) 256)
    20 cols
  writeRows (fun _ _ => setSibling (unpack w.cb)) 5505 (8192 - 5505) cols

/-- The columns that are written first. -/
def fillColumns : Table :=
  let cols := writeRows (fun _ _ => carries w) 0 8192 fun _ _ => 0
  fillSiblings w (fillSums (fillBits w cols))

end Columns

section Simulation

variable (blake3 : List UInt8 → U8Array 32) (w : SpendWitness)

/-- The blocks of the nullifier and of the note. -/
def simulateNote (cols : Table) : Table :=
  let b := unpack w.b
  let pkd := unpack w.pkd
  let cols := setState cols 0 ![nullifierIv blake3, b.1, b.2, 0]
  let cols := freezeStateRows cols 1 1
  let cols := runPermRows blake3 cols 1
  let cols := freezeStateRows cols 66 128
  let cols := setState cols 129 ![noteIv blake3, ofU64 w.v, b.1, b.2]
  let cols := runPermRows blake3 cols 129
  let cols := freezeStateRows cols 194 256
  let cols := setState cols 257
    ![cols 256 0, cols 256 1 + pkd.1, cols 256 2 + pkd.2, cols 256 3]
  let cols := runPermRows blake3 cols 257
  freezeStateRows cols 322 384

/-- The two children of the link at level `d`. -/
def children (d : ℕ) (cur : Pair) : Pair × Pair :=
  if w.bit d = 1 then (w.sibling d, cur) else (cur, w.sibling d)

/-- The two blocks of a level of the path. -/
def simulateLevel (d : ℕ) (cols : Table) : Table :=
  let base := stepMrkBase + 256 * d
  let (l, r) := children w d (cols base 1, cols base 2)
  let cols := setState cols (base + 1) ![merkleIv blake3, l.1, l.2, r.1]
  let rhiEnd := min (base + 256) (8192 - 1)
  let cols := fillColumn cols 11 (base + 1) (rhiEnd - base) r.2
  let cols := runPermRows blake3 cols (base + 1)
  let cols := freezeStateRows cols (base + 66) (base + 128)
  let cols := setState cols (base + 129)
    ![cols (base + 128) 0, cols (base + 128) 1 + r.2, cols (base + 128) 2, cols (base + 128) 3]
  let cols := runPermRows blake3 cols (base + 129)
  let cols := freezeStateRows cols (base + 194) (base + 256)
  if d = 19 then fillColumn cols 11 (base + 257) (8192 - (base + 257)) r.2 else cols

/-- The blocks of the change note; the last one holds its result to the end. -/
def simulateChange (cols : Table) : Table :=
  let cb := unpack w.cb
  let cpkd := unpack w.cpkd
  let cols := setState cols (stepLchg + 1) ![noteIv blake3, ofU64 w.cv, cb.1, cb.2]
  let cols := runPermRows blake3 cols (stepLchg + 1)
  let cols := freezeStateRows cols (stepLchg + 66) stepAchg
  let cols := setState cols (stepAchg + 1) ![cols stepAchg 0, cols stepAchg 1 + cpkd.1,
    cols stepAchg 2 + cpkd.2, cols stepAchg 3]
  let cols := runPermRows blake3 cols (stepAchg + 1)
  freezeStateRows cols (5697 + 1) (8192 - 1)

/-- The table after the simulation. -/
def spendTable : Table :=
  simulateChange blake3 w
    (steps (simulateLevel blake3 w) 20 (simulateNote blake3 w (fillColumns w)))

/-- `build_spend_trace`. -/
def buildSpendTrace : Trace BaseElement 8192 14 :=
  Trace.ofRows 8192 fun r c => spendTable blake3 w r c

/-- The public inputs that `prove_spend` derives from the witness. -/
def provePublicInputs (priceOrAmount mode : UInt64) : SpendPI :=
  let noteLeaf := noteHash (poseidonHashes blake3) w.v w.b w.pkd
  let root := merklePathRoot (poseidonHashes blake3) noteLeaf w.index.toNat w.siblings
  let nullifier := nullifierHash (poseidonHashes blake3) w.b
  let (changeLeaf, changePkd) :=
    if mode = 1 then (noteHash (poseidonHashes blake3) w.cv w.cb w.cpkd, w.cpkd)
    else (zeroChangeLeaf (poseidonHashes blake3), U8Array.zero 32)
  { root, nullifier, pkd := w.pkd, priceOrAmount, changeLeaf, changePkd, mode }

end Simulation

section Filled

variable {w : SpendWitness} {cols : Table} {a c k r : ℕ}

theorem bitElement_eq (x : UInt64) (i : ℕ) :
    bitElement x i = ((x.toNat / 2 ^ i % 2 : ℕ) : BaseElement) := by
  rw [bitElement, BaseElement.new, Nat.and_one_is_mod, Nat.shiftRight_eq_div_pow]

/-- The loop over the bits of both values. -/
theorem steps_bits_apply (x y : ℕ → BaseElement) {m : ℕ} (hm : m ≤ 64) :
    steps (fun i cols => setCell (setCell cols 4 i (x i)) 4 (64 + i) (y i)) m cols r c =
      if c = 4 ∧ r < m then x r else if c = 4 ∧ 64 ≤ r ∧ r < 64 + m then y (r - 64)
      else cols r c := by
  induction m with
  | zero => rw [steps_zero, if_neg (by omega), if_neg (by omega)]
  | succ m ih =>
      rw [steps_succ, setCell_apply, setCell_apply, ih (by omega)]
      by_cases hhigh : r = 64 + m ∧ c = 4
      · obtain ⟨rfl, rfl⟩ := hhigh
        rw [if_pos ⟨rfl, rfl⟩, if_neg (by omega), if_pos (by omega), Nat.add_sub_cancel_left]
      · rw [if_neg hhigh]
        by_cases hlow : r = m ∧ c = 4
        · obtain ⟨rfl, rfl⟩ := hlow
          rw [if_pos ⟨rfl, rfl⟩, if_pos (by omega)]
        · rw [if_neg hlow]
          split_ifs <;> first | rfl | omega

theorem fillBits_column (hc : c ≠ 4) : fillBits w cols r c = cols r c := by
  rw [fillBits, steps_writeRows_eq (by decide)]
  have hvalues := @steps_bits_apply cols c r (bitElement w.v) (bitElement w.cv) 64 le_rfl
  split_ifs with hr
  · rw [setBit, Function.update_of_ne hc, hvalues, if_neg (by omega), if_neg (by omega)]
  · rw [hvalues, if_neg (by omega), if_neg (by omega)]

theorem fillBits_bit : fillBits w cols r 4 =
    if 385 ≤ r ∧ r < 5505 then BaseElement.new (w.bit ((r - 385) / 256))
    else if r < 64 then bitElement w.v r else if r < 128 then bitElement w.cv (r - 64)
    else cols r 4 := by
  rw [fillBits, steps_writeRows_eq (by decide)]
  by_cases hr : 385 ≤ r ∧ r < 5505
  · rw [if_pos hr, if_pos hr, setBit, Function.update_self]
  · rw [if_neg hr, if_neg hr, steps_bits_apply _ _ le_rfl]
    split_ifs <;> first | rfl | omega

theorem addBits_of_not_mem (hr : r ≤ a ∨ a + 63 < r) : addBits cols a r = cols r :=
  writeRows_of_not_mem (by omega)

theorem addBits_column (h5 : c ≠ 5) (h6 : c ≠ 6) : addBits cols a r c = cols r c :=
  writeRows_column (fun k prev row => by
    rw [Function.update_of_ne h6, Function.update_of_ne h5]) _ _ _ _

theorem addBits_step (hk : k < 63) :
    addBits cols a (a + k + 1) 5 =
        addBits cols a (a + k) 5 + addBits cols a (a + k) 4 * addBits cols a (a + k) 6 ∧
      addBits cols a (a + k + 1) 6 = addBits cols a (a + k) 6 + addBits cols a (a + k) 6 := by
  have hsucc : a + k + 1 = a + 1 + k := by omega
  have hprev : a + 1 + k - 1 = a + k := by omega
  have hrow : addBits cols a (a + 1 + k) = Function.update (Function.update (cols (a + 1 + k)) 5
      (addBits cols a (a + 1 + k - 1) 5 +
        addBits cols a (a + 1 + k - 1) 4 * addBits cols a (a + 1 + k - 1) 6)) 6
      (addBits cols a (a + 1 + k - 1) 6 + addBits cols a (a + 1 + k - 1) 6) :=
    writeRows_eq (Nat.succ_pos a) hk
  rw [hprev] at hrow
  rw [hsucc]
  constructor
  · have h5 := congrFun hrow 5
    rwa [Function.update_of_ne (by decide), Function.update_self] at h5
  · have h6 := congrFun hrow 6
    rwa [Function.update_self] at h6

theorem fillSums_column (h5 : c ≠ 5) (h6 : c ≠ 6) : fillSums cols r c = cols r c := by
  rw [fillSums, writeRows_column (fun k prev row => by
    rw [Function.update_of_ne h6, Function.update_of_ne h5]), addBits_column h5 h6]
  simp only [setCell_apply, h5, h6, and_false, if_false, addBits_column h5 h6]

theorem fillSiblings_column (h9 : c ≠ 9) (h10 : c ≠ 10) : fillSiblings w cols r c = cols r c := by
  rw [fillSiblings, writeRows_column (fun k prev row => by
    rw [setSibling, Function.update_of_ne h10, Function.update_of_ne h9]),
    steps_writeRows_eq (by decide)]
  split_ifs
  · rw [setSibling, Function.update_of_ne h10, Function.update_of_ne h9]
  · rfl

theorem fillSiblings_sibling (hr : r < 8192) :
    (fillSiblings w cols r 9, fillSiblings w cols r 10) =
      if r < 385 then (cols r 9, cols r 10) else if r < 5505 then w.sibling ((r - 385) / 256)
      else unpack w.cb := by
  rw [fillSiblings]
  by_cases hlast : 5505 ≤ r
  · obtain ⟨k, rfl⟩ := Nat.exists_eq_add_of_le hlast
    rw [writeRows_map (f := fun _ => setSibling (unpack w.cb)) (by omega), if_neg (by omega),
      if_neg (by omega)]
    simp [setSibling]
  · rw [writeRows_of_not_mem (by omega), steps_writeRows_eq (by decide)]
    by_cases hr : r < 385
    · rw [if_neg (by omega), if_pos hr]
    · rw [if_pos (by omega), if_neg hr, if_pos (by omega)]
      simp [setSibling]

/-- The rows of both range sums. -/
theorem fillSums_rows :
    (fillSums cols 0 5 = 0 ∧ fillSums cols 0 6 = 1) ∧
      (fillSums cols 64 5 = 0 ∧ fillSums cols 64 6 = 1) ∧
      ∀ i, IsRstep i → fillSums cols (i + 1) 5 =
          fillSums cols i 5 + fillSums cols i 4 * fillSums cols i 6 ∧
        fillSums cols (i + 1) 6 = fillSums cols i 6 + fillSums cols i 6 := by
  obtain ⟨first, hfirst⟩ : ∃ t, t = addBits (setCell (setCell cols 5 0 0) 6 0 1) 0 := ⟨_, rfl⟩
  obtain ⟨second, hsecond⟩ : ∃ t, t = addBits (setCell (setCell first 5 64 0) 6 64 1) 64 :=
    ⟨_, rfl⟩
  have hrow (r : ℕ) (hr : r < 128) : fillSums cols r = second r := by
    rw [hsecond, hfirst, fillSums, writeRows_of_not_mem (.inl hr)]
  have hlow (r : ℕ) (hr : r < 64) : second r = first r := by
    rw [hsecond, addBits_of_not_mem (by omega)]
    funext c
    rw [setCell_apply, if_neg (by omega), setCell_apply, if_neg (by omega)]
  refine ⟨?_, ?_, ?_⟩
  · rw [hrow 0 (by decide), hlow 0 (by decide), hfirst, addBits_of_not_mem (by omega)]
    simp [setCell_apply]
  · rw [hrow 64 (by decide), hsecond, addBits_of_not_mem (by omega)]
    simp [setCell_apply]
  · intro i hi
    rcases hi with hi | ⟨hlo, hhi⟩
    · have hstep := @addBits_step (setCell (setCell cols 5 0 0) 6 0 1) 0 i hi
      rw [← hfirst, Nat.zero_add] at hstep
      rwa [hrow (i + 1) (by omega), hrow i (by omega), hlow (i + 1) (by omega), hlow i (by omega)]
    · obtain ⟨k, rfl⟩ := Nat.exists_eq_add_of_le hlo
      have hstep := @addBits_step (setCell (setCell first 5 64 0) 6 64 1) 64 k (by omega)
      rw [← hsecond] at hstep
      rwa [hrow (64 + k + 1) (by omega), hrow (64 + k) (by omega)]

end Filled

end NullaRelay.ProofHub.SpendAir
