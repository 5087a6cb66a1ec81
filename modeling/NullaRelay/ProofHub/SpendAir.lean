import NullaRelay.ProofHub.V2

/-!
# The circuit of a v2 spend

8192 rows in blocks of 128. A block runs one permutation: its first step links
the block to what it hashes, the next 64 run the rounds and the rest hold the
state. The blocks hash the nullifier, the note, the 20 levels of the path and
the change note. The range columns add up the bits of the two values in the
first two blocks; the carries hold the blinding and the values over the whole
trace.
-/

namespace NullaRelay.ProofHub.SpendAir

open Air V2

/-- The public inputs; the mode is zero for a withdrawal and one for a purchase. -/
structure SpendPI where
  root : U8Array 32
  nullifier : U8Array 32
  pkd : U8Array 32
  priceOrAmount : UInt64
  changeLeaf : U8Array 32
  changePkd : U8Array 32
  mode : UInt64

/-- `SpendPI::to_elements`: what the verifier reads of the public inputs. -/
def SpendPI.toElements (pi : SpendPI) : List BaseElement :=
  [(unpack pi.root).1, (unpack pi.root).2, (unpack pi.nullifier).1, (unpack pi.nullifier).2,
    (unpack pi.pkd).1, (unpack pi.pkd).2, ofU64 pi.priceOrAmount,
    (unpack pi.changeLeaf).1, (unpack pi.changeLeaf).2, (unpack pi.changePkd).1,
    (unpack pi.changePkd).2, ofU64 pi.mode]

def block : ℕ := 128

def activeBlocks : ℕ := 45

/-- Step that links the first note permutation. -/
def stepLnote : ℕ := 128

def stepAnote : ℕ := 256

/-- The link of level `d` is at step `384 + 256 * d`. -/
def stepMrkBase : ℕ := 384

def stepLchg : ℕ := 5504

def stepAchg : ℕ := 5632

section Schedule

variable (i : ℕ)

/-- Steps of the round function, by the masks of the schedule. -/
def IsRnd : Prop := i / block < activeBlocks ∧ 1 ≤ i % block ∧ i % block ≤ 64

def IsFrz : Prop := i / block < activeBlocks ∧ 65 ≤ i % block ∨ i = 0

def IsLmrk : Prop := ∃ d, d < 20 ∧ i = stepMrkBase + 256 * d

def IsAmrk : Prop := ∃ d, d < 20 ∧ i = stepMrkBase + 256 * d + block

def IsRstep : Prop := i < 63 ∨ (64 ≤ i ∧ i < 127)

def IsBitfrz : Prop := stepMrkBase ≤ i ∧ i < stepLchg ∧ (i - stepMrkBase) % 256 ≠ 0

instance : Decidable (IsRnd i) := inferInstanceAs (Decidable (_ ∧ _ ∧ _))

instance : Decidable (IsFrz i) := inferInstanceAs (Decidable (_ ∧ _ ∨ _))

instance : Decidable (IsLmrk i) := inferInstanceAs (Decidable (∃ d, d < 20 ∧ _))

instance : Decidable (IsAmrk i) := inferInstanceAs (Decidable (∃ d, d < 20 ∧ _))

instance : Decidable (IsRstep i) := inferInstanceAs (Decidable (_ ∨ _ ∧ _))

instance : Decidable (IsBitfrz i) := inferInstanceAs (Decidable (_ ∧ _ ∧ _))

end Schedule

/-- The periodic columns at one step: round constants and schedule masks. -/
structure Periodic where
  rc : Fin 4 → BaseElement
  isf : BaseElement
  mRnd : BaseElement
  mFrz : BaseElement
  mLnote : BaseElement
  mAnote : BaseElement
  mLmrk : BaseElement
  mAmrk : BaseElement
  mLchg : BaseElement
  mAchg : BaseElement
  mRstep : BaseElement
  mRst : BaseElement
  mChk2 : BaseElement
  mRow0 : BaseElement
  mAuxfrz : BaseElement
  mBitfrz : BaseElement
  mRhifrz : BaseElement

variable (blake3 : List UInt8 → U8Array 32)

/-- `poseidon_periodic_128` and `spend_masks`: step `s` of a block, from 1 to 64,
runs round `s - 1`. -/
def periodic (i : ℕ) : Periodic :=
  let s := i % block
  { rc := fun j => if 1 ≤ s ∧ s ≤ 64 then poseidonRc blake3 (s - 1) j else 0
    isf := mask (1 ≤ s ∧ s ≤ 64 ∧ isFullRound (s - 1))
    mRnd := mask (IsRnd i)
    mFrz := mask (IsFrz i)
    mLnote := mask (i = stepLnote)
    mAnote := mask (i = stepAnote)
    mLmrk := mask (IsLmrk i)
    mAmrk := mask (IsAmrk i)
    mLchg := mask (i = stepLchg)
    mAchg := mask (i = stepAchg)
    mRstep := mask (IsRstep i)
    mRst := mask (i = 63)
    mChk2 := mask (i = 127)
    mRow0 := mask (i = 0)
    mAuxfrz := mask (¬ IsLmrk i ∧ i ≠ stepLchg)
    mBitfrz := mask (IsBitfrz i)
    mRhifrz := mask (¬ IsLmrk i) }

/-- A row of the trace. -/
abbrev Row := Fin 14 → BaseElement

/-- The columns that hold the state of the permutation. -/
def state (row : Row) : PoseidonState := ![row 0, row 1, row 2, row 3]

/-- The two children at a link of the path: the node of the current row and the
sibling of the next, in the order of the next row's bit. -/
def linkLeft (c n : Row) : Pair :=
  (n 4 * n 9 + (1 - n 4) * c 1, n 4 * n 10 + (1 - n 4) * c 2)

def linkRight (c n : Row) : Pair :=
  (n 4 * c 1 + (1 - n 4) * n 9, n 4 * c 2 + (1 - n 4) * n 10)

/-- The constraints on the state columns; the masks are disjoint. -/
def stateConstraint (pi : SpendPI) (p : Periodic) (c n : Row) (j : Fin 4) : BaseElement :=
  let pkd := unpack pi.pkd
  let cpkd := unpack pi.changePkd
  let exp := poseidonRound p.rc p.isf (state c)
  let l := linkLeft c n
  let r := linkRight c n
  let lnote := ![noteIv blake3, c 12, c 7, c 8]
  let lmrk := ![merkleIv blake3, l.1, l.2, r.1]
  let lchg := ![noteIv blake3, c 13, n 9, n 10]
  let abs1 := p.mAnote * pkd.1 + p.mAmrk * c 11 + p.mAchg * cpkd.1
  let abs2 := p.mAnote * pkd.2 + p.mAchg * cpkd.2
  let mAbs := p.mAnote + p.mAmrk + p.mAchg
  p.mRnd * (state n j - exp j) + p.mFrz * (state n j - state c j)
    + p.mLnote * (state n j - lnote j) + p.mLmrk * (state n j - lmrk j)
    + p.mLchg * (state n j - lchg j) + mAbs * (state n j - state c j)
    - ![0, abs1, abs2, 0] j

def evaluateTransition (pi : SpendPI) (p : Periodic) (c n : Row) : Fin 22 → BaseElement :=
  let price := ofU64 pi.priceOrAmount
  let mode := ofU64 pi.mode
  let r := stateConstraint blake3 pi p c n
  ![r 0, r 1, r 2, r 3,
    c 4 * (c 4 - 1),
    p.mRstep * (n 5 - c 5 - c 4 * c 6) + p.mRst * n 5,
    p.mRstep * (n 6 - (c 6 + c 6)) + p.mRst * (n 6 - 1),
    p.mRst * (c 5 + c 4 * c 6 - c 12) + p.mChk2 * (c 5 + c 4 * c 6 - c 13),
    n 7 - c 7, n 8 - c 8, n 12 - c 12, n 13 - c 13,
    p.mAuxfrz * (n 9 - c 9), p.mAuxfrz * (n 10 - c 10),
    p.mBitfrz * (n 4 - c 4),
    p.mLmrk * (n 11 - (linkRight c n).2) + p.mRhifrz * (n 11 - c 11),
    c 12 - mode * c 13 - price,
    (1 - mode) * c 13,
    p.mRow0 * (c 0 - nullifierIv blake3), p.mRow0 * (c 1 - c 7), p.mRow0 * (c 2 - c 8),
    p.mRow0 * c 3]

def getAssertions (pi : SpendPI) : List (Assertion BaseElement 14) :=
  let nf := unpack pi.nullifier
  let root := unpack pi.root
  let cl := unpack pi.changeLeaf
  [⟨5, 0, 0⟩, ⟨6, 0, 1⟩, ⟨1, 65, nf.1⟩, ⟨2, 65, nf.2⟩, ⟨1, 5441, root.1⟩, ⟨2, 5441, root.2⟩,
    ⟨1, 5697, cl.1⟩, ⟨2, 5697, cl.2⟩]

/-- `SpendAir`. -/
def spendAir (pi : SpendPI) : Air BaseElement 14 22 where
  evaluateTransition i c n := evaluateTransition blake3 pi (periodic blake3 i) c n
  assertions := getAssertions pi

/-- The circuit is a function of the elements of its public inputs. -/
theorem spendAir_congr {pi pi' : SpendPI} (h : pi.toElements = pi'.toElements) :
    spendAir blake3 pi = spendAir blake3 pi' := by
  simp only [SpendPI.toElements, List.cons.injEq, and_true] at h
  obtain ⟨hr, hr', hn, hn', hp, hp', hprice, hl, hl', hc, hc', hmode⟩ := h
  simp only [spendAir, evaluateTransition, stateConstraint, getAssertions, *]

/-- What a step does to the state: a round, nothing, one of the links and
absorptions at the start of a block, or anything after the active blocks. -/
inductive Kind
  | rnd
  | frz
  | lnote
  | anote
  | lmrk
  | amrk
  | lchg
  | achg
  | idle
  deriving DecidableEq

/-- The kind of each step. -/
def kind (i : ℕ) : Kind :=
  if activeBlocks ≤ i / block then .idle
  else if i = 0 then .frz
  else if 65 ≤ i % block then .frz
  else if 1 ≤ i % block then .rnd
  else if i = stepLnote then .lnote
  else if i = stepAnote then .anote
  else if i = stepLchg then .lchg
  else if i = stepAchg then .achg
  else if i / block % 2 = 1 then .lmrk
  else .amrk

theorem isLmrk_iff {i : ℕ} : IsLmrk i ↔ 384 ≤ i ∧ i < 5504 ∧ i % 256 = 128 := by
  constructor
  · rintro ⟨d, hd, rfl⟩
    unfold stepMrkBase
    omega
  · rintro ⟨hlo, hhi, hmod⟩
    exact ⟨(i - 384) / 256, by omega, by unfold stepMrkBase; omega⟩

theorem isAmrk_iff {i : ℕ} : IsAmrk i ↔ 512 ≤ i ∧ i < 5504 ∧ i % 256 = 0 := by
  constructor
  · rintro ⟨d, hd, rfl⟩
    unfold stepMrkBase block
    omega
  · rintro ⟨hlo, hhi, hmod⟩
    exact ⟨(i - 512) / 256, by omega, by unfold stepMrkBase block; omega⟩

/-- The eight masks on the state columns are disjoint: each is the mask of one
kind of step. -/
theorem schedule (i : ℕ) :
    (IsRnd i ↔ kind i = .rnd) ∧ (IsFrz i ↔ kind i = .frz) ∧ (i = stepLnote ↔ kind i = .lnote) ∧
      (i = stepAnote ↔ kind i = .anote) ∧ (IsLmrk i ↔ kind i = .lmrk) ∧
      (IsAmrk i ↔ kind i = .amrk) ∧ (i = stepLchg ↔ kind i = .lchg) ∧
      (i = stepAchg ↔ kind i = .achg) := by
  rw [isLmrk_iff, isAmrk_iff]
  unfold kind IsRnd IsFrz stepLnote stepAnote stepLchg stepAchg block activeBlocks
  split_ifs <;> simp only [iff_false, iff_true] <;> omega

/-- `state[1] += p.0; state[2] += p.1`. -/
def absorb (s : PoseidonState) (p : Pair) : PoseidonState := ![s 0, s 1 + p.1, s 2 + p.2, s 3]

/-- What the constraints at step `i` ask of the state columns. -/
def StateStep (blake3 : List UInt8 → U8Array 32) (pi : SpendPI) (i : ℕ) (c n : Row) : Prop :=
  match kind i with
  | .rnd => state n = poseidonEvalRoundBase blake3 (i % block - 1) (state c)
  | .frz => state n = state c
  | .lnote => state n = ![noteIv blake3, c 12, c 7, c 8]
  | .anote => state n = absorb (state c) (unpack pi.pkd)
  | .lmrk => state n = ![merkleIv blake3, (linkLeft c n).1, (linkLeft c n).2, (linkRight c n).1]
  | .amrk => state n = absorb (state c) (c 11, 0)
  | .lchg => state n = ![noteIv blake3, c 13, n 9, n 10]
  | .achg => state n = absorb (state c) (unpack pi.changePkd)
  | .idle => True

variable {blake3} {pi : SpendPI} {i : ℕ} {c n : Row}

theorem next_iff {s t : PoseidonState} :
    (∀ j, t j - s j - (![0, 0, 0, 0] : PoseidonState) j = 0) ↔ t = s := by
  simp [funext_iff, Fin.forall_fin_succ, sub_eq_zero]

theorem absorb_zero (s : PoseidonState) (x : BaseElement) :
    absorb s (x, 0) = ![s 0, s 1 + x, s 2, s 3] := by
  simp [absorb]

theorem absorb_iff {s t : PoseidonState} {x y : BaseElement} :
    (∀ j, t j - s j - (![0, x, y, 0] : PoseidonState) j = 0) ↔ t = absorb s (x, y) := by
  simp [absorb, funext_iff, Fin.forall_fin_succ, sub_sub, sub_eq_iff_eq_add']

theorem stateConstraint_eq_zero_iff :
    (∀ j, stateConstraint blake3 pi (periodic blake3 i) c n j = 0) ↔
      StateStep blake3 pi i c n := by
  obtain ⟨h1, h2, h3, h4, h5, h6, h7, h8⟩ := schedule i
  unfold StateStep
  cases hk : kind i with
  | rnd =>
      have hs : 1 ≤ i % block ∧ i % block ≤ 64 := (h1.2 hk).2
      simp [stateConstraint, periodic, h1, h2, h3, h4, h5, h6, h7, h8, hk, hs,
        poseidonEvalRoundBase, next_iff]
  | frz =>
      simp [stateConstraint, periodic, h1, h2, h3, h4, h5, h6, h7, h8, hk, next_iff]
  | lnote =>
      simp [stateConstraint, periodic, h1, h2, h3, h4, h5, h6, h7, h8, hk, next_iff]
  | anote =>
      simp [stateConstraint, periodic, h1, h2, h3, h4, h5, h6, h7, h8, hk, absorb_iff]
  | lmrk =>
      simp [stateConstraint, periodic, h1, h2, h3, h4, h5, h6, h7, h8, hk, next_iff]
  | amrk =>
      simp [stateConstraint, periodic, h1, h2, h3, h4, h5, h6, h7, h8, hk, absorb_iff]
  | lchg =>
      simp [stateConstraint, periodic, h1, h2, h3, h4, h5, h6, h7, h8, hk, next_iff]
  | achg =>
      simp [stateConstraint, periodic, h1, h2, h3, h4, h5, h6, h7, h8, hk, absorb_iff]
  | idle =>
      simp [stateConstraint, periodic, h1, h2, h3, h4, h5, h6, h7, h8, hk, Fin.forall_fin_succ]

/-- What the constraints at step `i` ask of the columns of the range sums: a bit
at each step, a fresh sum after step 63, and the value and the change value at
the ends of the two sums. -/
def RangeStep (i : ℕ) (c n : Row) : Prop :=
  (IsRstep i → n 5 = c 5 + c 4 * c 6 ∧ n 6 = c 6 + c 6) ∧
    (i = 63 → n 5 = 0 ∧ n 6 = 1 ∧ c 5 + c 4 * c 6 = c 12) ∧
    (i = 127 → c 5 + c 4 * c 6 = c 13)

theorem rangeStep_iff :
    RangeStep i c n ↔
      mask (IsRstep i) * (n 5 - c 5 - c 4 * c 6) + mask (i = 63) * n 5 = 0 ∧
      mask (IsRstep i) * (n 6 - (c 6 + c 6)) + mask (i = 63) * (n 6 - 1) = 0 ∧
      mask (i = 63) * (c 5 + c 4 * c 6 - c 12) + mask (i = 127) * (c 5 + c 4 * c 6 - c 13) = 0 := by
  by_cases h63 : i = 63
  · subst h63
    have hstep : ¬ IsRstep 63 := by decide
    simp [RangeStep, hstep, sub_eq_zero]
  · by_cases h127 : i = 127
    · subst h127
      have hstep : ¬ IsRstep 127 := by decide
      simp [RangeStep, hstep, sub_eq_zero]
    · by_cases hstep : IsRstep i <;> simp [RangeStep, hstep, h63, h127, sub_eq_zero, sub_sub]

/-- What the constraint at step `i` asks of the right half of a link. -/
def RightStep (i : ℕ) (c n : Row) : Prop := n 11 = if IsLmrk i then (linkRight c n).2 else c 11

/-- What the constraints at step `i` ask of the other columns: the bit and the
carries, the sibling frozen outside links, the right half of a link carried to
its absorption, the value equations and the first row. -/
structure CarryStep (blake3 : List UInt8 → U8Array 32) (pi : SpendPI) (i : ℕ) (c n : Row) :
    Prop where
  bit : c 4 = 0 ∨ c 4 = 1
  blinding : n 7 = c 7 ∧ n 8 = c 8
  values : n 12 = c 12 ∧ n 13 = c 13
  sibling : ¬ IsLmrk i → i ≠ stepLchg → n 9 = c 9 ∧ n 10 = c 10
  bitFrozen : IsBitfrz i → n 4 = c 4
  right : n 11 = if IsLmrk i then (linkRight c n).2 else c 11
  value : c 12 = ofU64 pi.mode * c 13 + ofU64 pi.priceOrAmount
  change : (1 - ofU64 pi.mode) * c 13 = 0
  first : i = 0 → state c = ![nullifierIv blake3, c 7, c 8, 0]

theorem state_eq_iff {s : PoseidonState} :
    state c = s ↔ c 0 = s 0 ∧ c 1 = s 1 ∧ c 2 = s 2 ∧ c 3 = s 3 := by
  simp [state, funext_iff, Fin.forall_fin_succ]

theorem right_iff {x y : BaseElement} :
    mask (IsLmrk i) * (n 11 - x) + mask (¬ IsLmrk i) * (n 11 - y) = 0 ↔
      n 11 = if IsLmrk i then x else y := by
  by_cases hl : IsLmrk i <;> simp [hl, sub_eq_zero]

theorem carryStep_iff :
    CarryStep blake3 pi i c n ↔
      c 4 * (c 4 - 1) = 0 ∧ n 7 - c 7 = 0 ∧ n 8 - c 8 = 0 ∧ n 12 - c 12 = 0 ∧ n 13 - c 13 = 0 ∧
      mask (¬ IsLmrk i ∧ i ≠ stepLchg) * (n 9 - c 9) = 0 ∧
      mask (¬ IsLmrk i ∧ i ≠ stepLchg) * (n 10 - c 10) = 0 ∧
      mask (IsBitfrz i) * (n 4 - c 4) = 0 ∧
      mask (IsLmrk i) * (n 11 - (linkRight c n).2) + mask (¬ IsLmrk i) * (n 11 - c 11) = 0 ∧
      c 12 - ofU64 pi.mode * c 13 - ofU64 pi.priceOrAmount = 0 ∧
      (1 - ofU64 pi.mode) * c 13 = 0 ∧
      mask (i = 0) * (c 0 - nullifierIv blake3) = 0 ∧ mask (i = 0) * (c 1 - c 7) = 0 ∧
      mask (i = 0) * (c 2 - c 8) = 0 ∧ mask (i = 0) * c 3 = 0 := by
  simp only [right_iff, mask_mul_eq_zero, sub_eq_zero, sub_sub]
  constructor
  · intro h
    have hfirst := fun hi => state_eq_iff.1 (h.first hi)
    exact ⟨mul_sub_one_eq_zero_iff.2 h.bit, h.blinding.1, h.blinding.2, h.values.1, h.values.2,
      fun hn => (h.sibling hn.1 hn.2).1, fun hn => (h.sibling hn.1 hn.2).2, h.bitFrozen, h.right,
      h.value, h.change, fun hi => (hfirst hi).1, fun hi => (hfirst hi).2.1,
      fun hi => (hfirst hi).2.2.1, fun hi => (hfirst hi).2.2.2⟩
  · rintro ⟨hbit, h7, h8, h12, h13, h9, h10, hfrz, hright, hval, hchg, h0, h1, h2, h3⟩
    exact ⟨mul_sub_one_eq_zero_iff.1 hbit, ⟨h7, h8⟩, ⟨h12, h13⟩,
      fun hl hc => ⟨h9 ⟨hl, hc⟩, h10 ⟨hl, hc⟩⟩, hfrz, hright, hval, hchg,
      fun hi => state_eq_iff.2 ⟨h0 hi, h1 hi, h2 hi, h3 hi⟩⟩

theorem evaluateTransition_eq_zero_iff :
    evaluateTransition blake3 pi (periodic blake3 i) c n = 0 ↔
      StateStep blake3 pi i c n ∧ RangeStep i c n ∧ CarryStep blake3 pi i c n := by
  rw [← stateConstraint_eq_zero_iff, rangeStep_iff, carryStep_iff]
  simp only [evaluateTransition, Matrix.cons_eq_zero_iff, Matrix.zero_empty, and_true]
  simp only [periodic]
  constructor
  · rintro ⟨s0, s1, s2, s3, hbit, hacc, hpow, hend, hcarry⟩
    refine ⟨fun j => ?_, ⟨hacc, hpow, hend⟩, hbit, hcarry⟩
    fin_cases j
    exacts [s0, s1, s2, s3]
  · rintro ⟨hs, ⟨hacc, hpow, hend⟩, hbit, hcarry⟩
    exact ⟨hs 0, hs 1, hs 2, hs 3, hbit, hacc, hpow, hend, hcarry⟩

section Soundness

variable {t : Trace BaseElement 8192 14}

variable (blake3 pi t) in
/-- All steps of a trace. -/
def Runs : Prop := ∀ i, i < 8191 →
  StateStep blake3 pi i (t.row i) (t.row (i + 1)) ∧ RangeStep i (t.row i) (t.row (i + 1)) ∧
    CarryStep blake3 pi i (t.row i) (t.row (i + 1))

theorem runs_of_satisfies (h : (spendAir blake3 pi).Satisfies t) : Runs blake3 pi t := fun i hi =>
  evaluateTransition_eq_zero_iff.1 (h.transition i (by omega))

theorem step (h : Runs blake3 pi t) (hi : i < 8191) :
    StateStep blake3 pi i (t.row i) (t.row (i + 1)) ∧ RangeStep i (t.row i) (t.row (i + 1)) ∧
      CarryStep blake3 pi i (t.row i) (t.row (i + 1)) := h i hi

theorem asserted (h : (spendAir blake3 pi).Satisfies t) :
    t.row 0 5 = 0 ∧ t.row 0 6 = 1 ∧ (t.row 65 1, t.row 65 2) = unpack pi.nullifier ∧
      (t.row 5441 1, t.row 5441 2) = unpack pi.root ∧
      (t.row 5697 1, t.row 5697 2) = unpack pi.changeLeaf := by
  have hall := h.assertion
  simp only [spendAir, getAssertions, List.forall_mem_cons] at hall
  obtain ⟨hacc, hpow, hn1, hn2, hr1, hr2, hc1, hc2, -⟩ := hall
  exact ⟨hacc, hpow, Prod.ext hn1 hn2, Prod.ext hr1 hr2, Prod.ext hc1 hc2⟩

theorem blinding_carried (h : Runs blake3 pi t) (hi : i ≤ 8191) :
    t.row i 7 = t.row 0 7 ∧ t.row i 8 = t.row 0 8 :=
  ⟨eq_of_frozen (x := fun i => t.row i 7) (fun j _ hj => (step h hj).2.2.blinding.1) (by simp) hi,
    eq_of_frozen (x := fun i => t.row i 8) (fun j _ hj => (step h hj).2.2.blinding.2) (by simp) hi⟩

theorem values_carried (h : Runs blake3 pi t) (hi : i ≤ 8191) :
    t.row i 12 = t.row 0 12 ∧ t.row i 13 = t.row 0 13 :=
  ⟨eq_of_frozen (x := fun i => t.row i 12) (fun j _ hj => (step h hj).2.2.values.1) (by simp) hi,
    eq_of_frozen (x := fun i => t.row i 13) (fun j _ hj => (step h hj).2.2.values.2) (by simp) hi⟩

/-- A block runs the permutation. -/
theorem block_perm (h : Runs blake3 pi t) {b : ℕ} (hb : b < 45) :
    state (t.row (128 * b + 65)) = poseidonPerm blake3 (state (t.row (128 * b + 1))) := by
  refine eq_steps (x := fun i => state (t.row i)) (a := 128 * b + 1) (k := 64) fun k hk => ?_
  have hkind : kind (128 * b + 1 + k) = .rnd :=
    (schedule _).1.1 ⟨show _ / 128 < 45 by omega, show 1 ≤ _ % 128 ∧ _ % 128 ≤ 64 by omega⟩
  have hround : (128 * b + 1 + k) % block - 1 = k := by
    unfold block
    omega
  have hstep := (step h (i := 128 * b + 1 + k) (by omega)).1
  rwa [StateStep, hkind, hround] at hstep

/-- The rest of the block holds the state. -/
theorem block_frozen (h : Runs blake3 pi t) {b : ℕ} (hb : b < 45) :
    state (t.row (128 * b + 128)) = state (t.row (128 * b + 65)) := by
  refine eq_of_frozen (x := fun i => state (t.row i)) (fun i hlo hhi => ?_)
    (by omega : 128 * b + 65 ≤ 128 * b + 128) le_rfl
  have hkind : kind i = .frz :=
    (schedule _).2.1.1 (.inl ⟨show _ / 128 < 45 by omega, show 65 ≤ _ % 128 by omega⟩)
  have hstep := (step h (i := i) (by omega)).1
  rwa [StateStep, hkind] at hstep

/-- The blinding, in the carries. -/
def blindingOf (t : Trace BaseElement 8192 14) : Pair := (t.row 0 7, t.row 0 8)

/-- Block 0 hashes the nullifier. -/
theorem nullifier_eq (h : Runs blake3 pi t) :
    (poseidonHashes blake3).nullifier (blindingOf t) = (t.row 65 1, t.row 65 2) := by
  have hfirst : state (t.row 0) = ![nullifierIv blake3, t.row 0 7, t.row 0 8, 0] :=
    (step h (by decide)).2.2.first rfl
  have hlink : state (t.row 1) = state (t.row 0) := (step h (by decide : 0 < 8191)).1
  have hperm := block_perm h (b := 0) (by decide)
  rw [mul_zero, zero_add, zero_add, hlink, hfirst] at hperm
  exact Prod.ext (congrFun hperm.symm 1) (congrFun hperm.symm 2)

/-- Blocks 1 and 2 hash the note. -/
theorem note_eq (h : Runs blake3 pi t) {v : UInt64}
    (hv : t.row 0 12 = ofU64 v) :
    (t.row 384 1, t.row 384 2) =
      (poseidonHashes blake3).note v (blindingOf t) (unpack pi.pkd) := by
  have hlink : state (t.row 129) = ![noteIv blake3, ofU64 v, t.row 0 7, t.row 0 8] := by
    have hstep : state (t.row 129) = ![noteIv blake3, t.row 128 12, t.row 128 7, t.row 128 8] :=
      (step h (by decide : 128 < 8191)).1
    rw [hstep, (values_carried h (by decide)).1, hv, (blinding_carried h (by decide)).1,
      (blinding_carried h (by decide)).2]
  have hfirst : state (t.row 256) = poseidonPerm blake3 (state (t.row 129)) :=
    (block_frozen h (b := 1) (by decide)).trans (block_perm h (by decide))
  have habsorb : state (t.row 257) = absorb (state (t.row 256)) (unpack pi.pkd) :=
    (step h (by decide : 256 < 8191)).1
  have hsecond : state (t.row 384) = poseidonPerm blake3 (state (t.row 257)) :=
    (block_frozen h (b := 2) (by decide)).trans (block_perm h (by decide))
  rw [habsorb, hfirst, hlink] at hsecond
  exact Prod.ext (congrFun hsecond 1) (congrFun hsecond 2)

/-- The node, the sibling and the bit of each level of the path. -/
def nodeOf (t : Trace BaseElement 8192 14) (d : ℕ) : Pair :=
  (t.row (384 + 256 * d) 1, t.row (384 + 256 * d) 2)

def siblingOf (t : Trace BaseElement 8192 14) (d : ℕ) : Pair :=
  (t.row (384 + 256 * d + 1) 9, t.row (384 + 256 * d + 1) 10)

def bitOf (t : Trace BaseElement 8192 14) (d : ℕ) : ℕ :=
  if t.row (384 + 256 * d + 1) 4 = 0 then 0 else 1

/-- A link orders the node and the sibling by the bit. -/
theorem link_eq_children {x s : Pair} (hx : x = (c 1, c 2)) (hs : s = (n 9, n 10))
    (hbit : n 4 = 0 ∨ n 4 = 1) :
    (linkLeft c n, linkRight c n) = Merkle.children (if n 4 = 0 then 0 else 1) x s := by
  subst hx hs
  rcases hbit with h0 | h1
  · simp [linkLeft, linkRight, Merkle.children, h0]
  · simp [linkLeft, linkRight, Merkle.children, h1]

/-- The right half of a link waits for its absorption. -/
theorem right_carried (h : Runs blake3 pi t) {d : ℕ} (hd : d < 20) :
    t.row (384 + 256 * d + 128) 11 =
      (linkRight (t.row (384 + 256 * d)) (t.row (384 + 256 * d + 1))).2 := by
  have hlink := (step h (i := 384 + 256 * d) (by omega)).2.2.right
  rw [if_pos (isLmrk_iff.2 (by omega))] at hlink
  rw [← hlink]
  refine eq_of_frozen (x := fun i => t.row i 11) (fun i hlo hhi => ?_)
    (by omega : 384 + 256 * d + 1 ≤ 384 + 256 * d + 128) le_rfl
  have hstep := (step h (i := i) (by omega)).2.2.right
  rwa [if_neg (by rw [isLmrk_iff]; omega)] at hstep

/-- Blocks `3 + 2 d` and `4 + 2 d` hash level `d` of the path. -/
theorem level_eq (h : Runs blake3 pi t) {d : ℕ} (hd : d < 20) :
    nodeOf t (d + 1) =
      (poseidonHashes blake3).merkle (Merkle.children (bitOf t d) (nodeOf t d) (siblingOf t d)).1
        (Merkle.children (bitOf t d) (nodeOf t d) (siblingOf t d)).2 := by
  have hlmrk : kind (384 + 256 * d) = .lmrk := (schedule _).2.2.2.2.1.1 ⟨d, hd, rfl⟩
  have hamrk : kind (384 + 256 * d + 128) = .amrk := (schedule _).2.2.2.2.2.1.1 ⟨d, hd, rfl⟩
  have hlink := (step h (i := 384 + 256 * d) (by omega)).1
  have habsorb := (step h (i := 384 + 256 * d + 128) (by omega)).1
  have hfirst : state (t.row (384 + 256 * d + 128)) =
      poseidonPerm blake3 (state (t.row (384 + 256 * d + 1))) := by
    have hblock := (block_frozen h (b := 3 + 2 * d) (by omega)).trans (block_perm h (by omega))
    rwa [show 128 * (3 + 2 * d) = 384 + 256 * d by ring] at hblock
  have hsecond : state (t.row (384 + 256 * (d + 1))) =
      poseidonPerm blake3 (state (t.row (384 + 256 * d + 128 + 1))) := by
    have hblock := (block_frozen h (b := 4 + 2 * d) (by omega)).trans (block_perm h (by omega))
    rwa [show 128 * (4 + 2 * d) + 128 = 384 + 256 * (d + 1) by ring,
      show 128 * (4 + 2 * d) = 384 + 256 * d + 128 by ring] at hblock
  have hbit := (step h (i := 384 + 256 * d + 1) (by omega)).2.2.bit
  have hchildren : (linkLeft _ _, linkRight _ _) =
      Merkle.children (bitOf t d) (nodeOf t d) (siblingOf t d) := link_eq_children rfl rfl hbit
  rw [StateStep, hlmrk] at hlink
  rw [StateStep, hamrk, right_carried h hd, hfirst, hlink] at habsorb
  rw [habsorb, absorb_zero] at hsecond
  rw [← hchildren]
  exact Prod.ext (congrFun hsecond 1) (congrFun hsecond 2)

/-- The last node of the path. -/
theorem root_row (h : Runs blake3 pi t) : nodeOf t 20 = (t.row 5441 1, t.row 5441 2) := by
  have hfrozen : state (t.row 5504) = state (t.row 5441) := block_frozen h (b := 42) (by decide)
  exact Prod.ext (congrFun hfrozen 1) (congrFun hfrozen 2)

/-- The path leads from the note to the root. -/
theorem path_eq (h : Runs blake3 pi t) :
    ∃ index, index < 2 ^ 20 ∧
      Merkle.pathRoot (poseidonHashes blake3).merkle ((List.range 20).map (siblingOf t)) index
        (nodeOf t 0) = (t.row 5441 1, t.row 5441 2) := by
  obtain ⟨index, hindex, hroot⟩ := Merkle.exists_index_of_levels (nodeOf t) (siblingOf t) (bitOf t)
    (n := 20) (fun d _ => by unfold bitOf; split_ifs <;> decide) fun d hd => level_eq h hd
  exact ⟨index, hindex, hroot.symm.trans (root_row h)⟩

/-- Blocks 43 and 44 hash the change note. -/
theorem change_eq (h : Runs blake3 pi t) {cv : UInt64}
    (hcv : t.row 0 13 = ofU64 cv) :
    (poseidonHashes blake3).note cv (t.row 5505 9, t.row 5505 10) (unpack pi.changePkd) =
      (t.row 5697 1, t.row 5697 2) := by
  have hlink : state (t.row 5505) = ![noteIv blake3, ofU64 cv, t.row 5505 9, t.row 5505 10] := by
    have hstep : state (t.row 5505) =
        ![noteIv blake3, t.row 5504 13, t.row 5505 9, t.row 5505 10] :=
      (step h (by decide : 5504 < 8191)).1
    rwa [(values_carried h (by decide)).2, hcv] at hstep
  have hfirst : state (t.row 5632) = poseidonPerm blake3 (state (t.row 5505)) :=
    (block_frozen h (b := 43) (by decide)).trans (block_perm h (by decide))
  have habsorb : state (t.row 5633) = absorb (state (t.row 5632)) (unpack pi.changePkd) :=
    (step h (by decide : 5632 < 8191)).1
  have hsecond : state (t.row 5697) = poseidonPerm blake3 (state (t.row 5633)) :=
    block_perm h (b := 44) (by decide)
  rw [habsorb, hfirst, hlink] at hsecond
  exact Prod.ext (congrFun hsecond.symm 1) (congrFun hsecond.symm 2)

/-- A stretch of 63 range steps and the step after it add up 64 bits. -/
theorem exists_sum (h : Runs blake3 pi t) {a : ℕ} (ha : a = 0 ∨ a = 64)
    (hacc : t.row a 5 = 0) (hpow : t.row a 6 = 1) :
    ∃ v : UInt64, t.row (a + 63) 5 + t.row (a + 63) 4 * t.row (a + 63) 6 = ofU64 v := by
  have hrange (i : ℕ) (hi : i < 63) : IsRstep (a + i) := by
    unfold IsRstep
    omega
  have hstep (i : ℕ) (hi : i < 63) := (step h (i := a + i) (by omega)).2.1.1 (hrange i hi)
  have hbit (i : ℕ) (hi : i < 64) := (step h (i := a + i) (by omega)).2.2.bit
  obtain ⟨hp, v, hv, hsum⟩ := exists_nat_of_bits (fun i => t.row i 4) (fun i => t.row i 5)
    (fun i => t.row i 6) a 63 (fun i hi => hbit i (by omega)) (fun i hi => (hstep i hi).1)
    (fun i hi => (hstep i hi).2) hacc hpow
  have hcast (m : ℕ) (hm : m < 2 ^ 64) : ofU64 (UInt64.ofNat m) = (m : BaseElement) := by
    rw [ofU64, BaseElement.new, UInt64.toNat_ofNat_of_lt' hm]
  rcases hbit 63 (by decide) with h0 | h1
  · refine ⟨UInt64.ofNat v, ?_⟩
    rw [hcast v (by omega), hsum, h0]
    ring
  · refine ⟨UInt64.ofNat (v + 2 ^ 63), ?_⟩
    rw [hcast _ (by omega), hsum, h1, hp]
    push_cast
    ring

/-- The value and the change value are 64-bit integers. -/
theorem values_eq (h : Runs blake3 pi t) (hacc₀ : t.row 0 5 = 0) (hpow₀ : t.row 0 6 = 1) :
    ∃ v cv : UInt64, t.row 0 12 = ofU64 v ∧ t.row 0 13 = ofU64 cv := by
  obtain ⟨hacc, hpow, hv⟩ := (step h (by decide : 63 < 8191)).2.1.2.1 rfl
  have hcv := (step h (by decide : 127 < 8191)).2.1.2.2 rfl
  obtain ⟨v, hvs⟩ := exists_sum h (.inl rfl) hacc₀ hpow₀
  obtain ⟨cv, hcvs⟩ := exists_sum h (.inr rfl) hacc hpow
  refine ⟨v, cv, ?_, ?_⟩
  · rw [← (values_carried h (by decide : 63 ≤ 8191)).1, ← hv]
    exact hvs
  · rw [← (values_carried h (by decide : 127 ≤ 8191)).2, ← hcv]
    exact hcvs

/-- The value equations hold on integers: nothing wraps around the modulus. -/
theorem value_balance (h : Runs blake3 pi t) {v cv : UInt64}
    (hv : t.row 0 12 = ofU64 v) (hcv : t.row 0 13 = ofU64 cv) :
    (pi.mode = 1 → v.toNat = cv.toNat + pi.priceOrAmount.toNat) ∧
      (pi.mode = 0 → v = pi.priceOrAmount ∧ cv = 0) := by
  obtain ⟨-, -, hcarry⟩ := step h (by decide : 0 < 8191)
  have hvalue := hcarry.value
  have hchange := hcarry.change
  rw [hv, hcv] at hvalue
  rw [hcv] at hchange
  constructor
  · intro hmode
    have hv' := v.toNat_lt
    have hcv' := cv.toNat_lt
    have hprice := pi.priceOrAmount.toNat_lt
    refine BaseElement.new_inj ?_ ?_ ?_
    · rw [baseModulus_eq]; omega
    · rw [baseModulus_eq]; omega
    · rw [hmode] at hvalue
      simpa [ofU64, BaseElement.new] using hvalue
  · intro hmode
    have hzero : ofU64 0 = 0 := by simp [ofU64, BaseElement.new]
    rw [hmode, hzero, sub_zero, one_mul, ← hzero] at hchange
    rw [hmode, hzero, zero_mul, zero_add] at hvalue
    exact ⟨ofU64_inj hvalue, ofU64_inj hchange⟩

/-- A trace that satisfies the circuit opens a note under the root whose
nullifier is the public one, and the change note, with balanced values. -/
theorem spend_sound (h : (spendAir blake3 pi).Satisfies t) :
    ∃ (v cv : UInt64) (b cb : U8Array 32) (index : ℕ) (siblings : List.Vector (U8Array 32) 20),
      index < 2 ^ 20 ∧
      unpack pi.nullifier = unpack (nullifierHash (poseidonHashes blake3) b) ∧
      unpack (merklePathRoot (poseidonHashes blake3)
        (noteHash (poseidonHashes blake3) v b pi.pkd) index siblings) = unpack pi.root ∧
      unpack pi.changeLeaf = unpack (noteHash (poseidonHashes blake3) cv cb pi.changePkd) ∧
      (pi.mode = 1 → v.toNat = cv.toNat + pi.priceOrAmount.toNat) ∧
      (pi.mode = 0 → v = pi.priceOrAmount ∧ cv = 0) := by
  have hrun := runs_of_satisfies h
  obtain ⟨hacc, hpow, hnf, hout, hchg⟩ := asserted h
  obtain ⟨v, cv, hv, hcv⟩ := values_eq hrun hacc hpow
  obtain ⟨index, hindex, hroot⟩ := path_eq hrun
  obtain ⟨hspend, hwithdraw⟩ := value_balance hrun hv hcv
  have hnote : nodeOf t 0 = _ := note_eq hrun hv
  obtain ⟨siblings, hsiblings⟩ : ∃ s : List.Vector (U8Array 32) 20,
      s.toList.map unpack = (List.range 20).map (siblingOf t) :=
    ⟨⟨(List.range 20).map fun d => packPair (siblingOf t d), by simp⟩,
      by simp [List.Vector.toList, Function.comp_def]⟩
  refine ⟨v, cv, packPair (blindingOf t), packPair (t.row 5505 9, t.row 5505 10), index, siblings,
    hindex, ?_, ?_, ?_, hspend, hwithdraw⟩
  · rw [nullifierHash, unpack_packPair, unpack_packPair, nullifier_eq hrun, hnf]
  · rw [unpack_merklePathRoot, unpack_noteHash, unpack_packPair, ← hnote, hsiblings, hroot, hout]
  · rw [unpack_noteHash, unpack_packPair, change_eq hrun hcv, hchg]

end Soundness

section Example

/-- With zero round constants and initial values the trace of the zero note is
zero but for the powers of the range sums. -/
def zeroTrace : Trace BaseElement 8192 14 :=
  Trace.ofRows 8192 fun i => ![0, 0, 0, 0, 0, 0, (2 ^ (i % 64) : ℕ), 0, 0, 0, 0, 0, 0, 0]

def zeroPI : SpendPI where
  root := U8Array.zero 32
  nullifier := U8Array.zero 32
  pkd := U8Array.zero 32
  priceOrAmount := 0
  changeLeaf := U8Array.zero 32
  changePkd := U8Array.zero 32
  mode := 1

def zeroBlake3 (_ : List UInt8) : U8Array 32 := U8Array.zero 32

theorem zero_round (round : ℕ) : poseidonEvalRoundBase zeroBlake3 round ![0, 0, 0, 0] =
    ![0, 0, 0, 0] := by
  have hrc (col : Fin 4) : poseidonRc zeroBlake3 round col = 0 := congrArg Prod.fst unpack_zero
  funext j
  fin_cases j <;> simp [poseidonEvalRoundBase, poseidonRound, hrc]

theorem unpack_zeroChangeLeaf :
    unpack (zeroChangeLeaf (poseidonHashes zeroBlake3)) = (0, 0) := by
  have hperm : poseidonPerm zeroBlake3 ![0, 0, 0, 0] = ![0, 0, 0, 0] := by
    have hsteps (k : ℕ) :
        steps (poseidonEvalRoundBase zeroBlake3) k ![0, 0, 0, 0] = ![0, 0, 0, 0] := by
      induction k with
      | zero => rfl
      | succ k ih => rw [steps_succ, ih, zero_round]
    exact hsteps poseidonRounds
  have hiv : noteIv zeroBlake3 = 0 := congrArg Prod.fst unpack_zero
  have hzero : ofU64 0 = 0 := by simp [ofU64, BaseElement.new]
  rw [zeroChangeLeaf, unpack_noteHash, unpack_zero]
  simp [poseidonHashes, poseidonOutput, hiv, hzero, hperm]

/-- At value zero both modes accept the trace. -/
theorem zeroTrace_satisfies_mode (m : UInt64) :
    (spendAir zeroBlake3 { zeroPI with mode := m }).Satisfies zeroTrace where
  transition i hi := by
    rw [zeroTrace, Trace.row_ofRows _ (by omega), Trace.row_ofRows _ hi]
    refine evaluateTransition_eq_zero_iff.2 ⟨?_, ?_, ?_⟩
    · have hiv (domain : List UInt8) : ivFromDomain zeroBlake3 domain = 0 :=
        congrArg Prod.fst unpack_zero
      unfold StateStep
      cases kind i <;>
        simp [state, absorb, linkLeft, linkRight, zeroPI, unpack_zero, zero_round, noteIv, merkleIv,
          hiv]
    · refine ⟨fun hstep => ⟨by simp, ?_⟩, fun h63 => by simp [h63], fun _ => by simp⟩
      have hmod : (i + 1) % 64 = i % 64 + 1 := by
        unfold IsRstep at hstep
        omega
      simp [hmod, pow_succ, mul_two]
    · have hiv : nullifierIv zeroBlake3 = 0 := congrArg Prod.fst unpack_zero
      constructor <;> simp [state, linkRight, zeroPI, ofU64, BaseElement.new, hiv]
  assertion := by
    have hrow (i : ℕ) (hi : i < 8192) : zeroTrace.row i =
        ![0, 0, 0, 0, 0, 0, ((2 ^ (i % 64) : ℕ) : BaseElement), 0, 0, 0, 0, 0, 0, 0] :=
      Trace.row_ofRows _ hi
    simp [spendAir, getAssertions, zeroPI, unpack_zero, hrow]

end Example

end NullaRelay.ProofHub.SpendAir
