import NullaRelay.ProofHub.Poseidon

/-!
# The circuit of a v1 purchase

512 rows in three phases: a range accumulator over 64 bits, the permutation that
opens the spent note, and the permutation that opens the change note. A link
step sets the value of the spent note to the accumulator plus the price. A
bridge step before the third phase switches every constraint off, so that the
permutation can start afresh; nothing ties the value it starts from to the
accumulator.
-/

namespace NullaRelay.ProofHub.PurchaseAir

open Air

/-- The public inputs. -/
structure PurchasePI where
  rpCommitment : U8Array 32
  changeRpCommitment : U8Array 32
  price : UInt64

/-- The periodic columns at one step. -/
structure Periodic where
  isPos : BaseElement
  isRng : BaseElement
  isLnk : BaseElement
  isBridge : BaseElement
  rc : Fin 4 → BaseElement
  isFull : BaseElement

/-- The steps of the two permutations. -/
def IsPos (i : ℕ) : Prop := (64 ≤ i ∧ i < 128) ∨ (192 ≤ i ∧ i < 256)

instance : DecidablePred IsPos := fun i =>
  inferInstanceAs (Decidable ((64 ≤ i ∧ i < 128) ∨ (192 ≤ i ∧ i < 256)))

/-- The columns that hold the state of the permutations. -/
def state (row : Fin 7 → BaseElement) : PoseidonState := ![row 0, row 1, row 2, row 3]

variable (blake3 : List UInt8 → U8Array 32)

def periodic (i : ℕ) : Periodic :=
  { isPos := mask (IsPos i)
    isRng := mask (i < 64)
    isLnk := mask (i = 63)
    isBridge := mask (i = 191)
    rc := poseidonRc blake3 (i % poseidonRounds)
    isFull := mask (isFullRound (i % poseidonRounds)) }

def evaluateTransition (price : BaseElement) (p : Periodic) (c n : Fin 7 → BaseElement) :
    Fin 7 → BaseElement :=
  let exp := poseidonRound p.rc p.isFull (state c)
  let raw0 := (n 0 - c 0) + p.isPos * (c 0 - exp 0)
  let freeze1 := n 1 - c 1
  let link1 := n 1 - n 5 - price
  let nonPos1 := (1 - p.isLnk) * freeze1 + p.isLnk * link1
  let raw1 := p.isPos * (n 1 - exp 1) + (1 - p.isPos) * nonPos1
  let raw2 := (n 2 - c 2) + p.isPos * (c 2 - exp 2)
  let raw3 := (n 3 - c 3) + p.isPos * (c 3 - exp 3)
  let bit := c 4
  let raw4 := p.isRng * (bit * (bit - 1)) + (1 - p.isRng) * (n 4 - c 4)
  let raw5 := p.isRng * (n 5 - (c 5 + c 4 * c 6)) + (1 - p.isRng) * (n 5 - c 5)
  let raw6 := p.isRng * (n 6 - (c 6 + c 6)) + (1 - p.isRng) * (n 6 - c 6)
  let ena := 1 - p.isBridge
  ![ena * raw0, ena * raw1, ena * raw2, ena * raw3, ena * raw4, ena * raw5, ena * raw6]

/-- The output asserted for the change permutation: without a change note, that
of value zero and blinding zero. -/
def changeOutput (changeRpCommitment : U8Array 32) : BaseElement × BaseElement :=
  if changeRpCommitment = U8Array.zero 32 then unpack (poseidonHash blake3 0 (U8Array.zero 32))
  else unpack changeRpCommitment

def getAssertions (pi : PurchasePI) : List (Assertion BaseElement 7) :=
  let iv := poseidonIv blake3
  let rp := unpack pi.rpCommitment
  let crp := changeOutput blake3 pi.changeRpCommitment
  [⟨5, 0, 0⟩, ⟨6, 0, 1⟩, ⟨0, 64, iv⟩, ⟨1, 128, rp.1⟩, ⟨2, 128, rp.2⟩, ⟨0, 192, iv⟩,
    ⟨1, 256, crp.1⟩, ⟨2, 256, crp.2⟩]

/-- `PurchaseAir`. -/
def purchaseAir (pi : PurchasePI) : Air BaseElement 7 7 where
  evaluateTransition i c n := evaluateTransition (ofU64 pi.price) (periodic blake3 i) c n
  assertions := getAssertions blake3 pi

/-- What the constraints at step `i` ask of the state columns. -/
def StateStep (price : BaseElement) (i : ℕ) (c n : Fin 7 → BaseElement) : Prop :=
  if IsPos i then state n = poseidonEvalRoundBase blake3 (i % poseidonRounds) (state c)
  else n 0 = c 0 ∧ n 1 = (if i = 63 then n 5 + price else c 1) ∧ n 2 = c 2 ∧ n 3 = c 3

/-- What the constraints at step `i` ask of the range columns. -/
def RangeStep (i : ℕ) (c n : Fin 7 → BaseElement) : Prop :=
  if i < 64 then (c 4 = 0 ∨ c 4 = 1) ∧ n 5 = c 5 + c 4 * c 6 ∧ n 6 = c 6 + c 6
  else n 4 = c 4 ∧ n 5 = c 5 ∧ n 6 = c 6

variable {blake3 : List UInt8 → U8Array 32}

theorem state_eq_iff {c : Fin 7 → BaseElement} {s : PoseidonState} :
    state c = s ↔ c 0 = s 0 ∧ c 1 = s 1 ∧ c 2 = s 2 ∧ c 3 = s 3 := by
  simp [state, funext_iff, Fin.forall_fin_succ]

theorem stateStep_iff {price : BaseElement} {i : ℕ} {c n : Fin 7 → BaseElement} :
    StateStep blake3 price i c n ↔
      let exp := poseidonEvalRoundBase blake3 (i % poseidonRounds) (state c)
      (n 0 - c 0) + mask (IsPos i) * (c 0 - exp 0) = 0 ∧
      mask (IsPos i) * (n 1 - exp 1) + (1 - mask (IsPos i)) *
        ((1 - mask (i = 63)) * (n 1 - c 1) + mask (i = 63) * (n 1 - n 5 - price)) = 0 ∧
      (n 2 - c 2) + mask (IsPos i) * (c 2 - exp 2) = 0 ∧
      (n 3 - c 3) + mask (IsPos i) * (c 3 - exp 3) = 0 := by
  by_cases hp : IsPos i
  · simp [StateStep, hp, state_eq_iff, sub_eq_zero]
  · by_cases h63 : i = 63
    · subst h63
      simp [StateStep, hp, sub_eq_zero, sub_sub]
    · simp [StateStep, hp, h63, sub_eq_zero]

theorem rangeStep_iff {i : ℕ} {c n : Fin 7 → BaseElement} :
    RangeStep i c n ↔
      mask (i < 64) * (c 4 * (c 4 - 1)) + (1 - mask (i < 64)) * (n 4 - c 4) = 0 ∧
      mask (i < 64) * (n 5 - (c 5 + c 4 * c 6)) + (1 - mask (i < 64)) * (n 5 - c 5) = 0 ∧
      mask (i < 64) * (n 6 - (c 6 + c 6)) + (1 - mask (i < 64)) * (n 6 - c 6) = 0 := by
  by_cases h : i < 64 <;> simp [RangeStep, h, sub_eq_zero]

theorem evaluateTransition_eq_zero_iff {price : BaseElement} {i : ℕ} {c n : Fin 7 → BaseElement} :
    evaluateTransition price (periodic blake3 i) c n = 0 ↔
      i = 191 ∨ StateStep blake3 price i c n ∧ RangeStep i c n := by
  by_cases hb : i = 191
  · simp [evaluateTransition, periodic, hb]
  · simp only [evaluateTransition, periodic, hb, mask_false, false_or, sub_zero, one_mul,
      Matrix.cons_eq_zero_iff, stateStep_iff, rangeStep_iff, poseidonEvalRoundBase]
    simp only [Matrix.zero_empty, and_true, and_assoc]

section Soundness

variable {pi : PurchasePI} {t : Trace BaseElement 512 7}

theorem step (h : (purchaseAir blake3 pi).Satisfies t) {i : ℕ} (hi : i < 511) (hb : i ≠ 191) :
    StateStep blake3 (ofU64 pi.price) i (t.row i) (t.row (i + 1)) ∧
      RangeStep i (t.row i) (t.row (i + 1)) := by
  have hstep := evaluateTransition_eq_zero_iff.1 (h.transition i (by omega))
  exact hstep.resolve_left hb

theorem asserted (h : (purchaseAir blake3 pi).Satisfies t) :
    t.row 0 5 = 0 ∧ t.row 0 6 = 1 ∧ t.row 64 0 = poseidonIv blake3 ∧
      (t.row 128 1, t.row 128 2) = unpack pi.rpCommitment ∧ t.row 192 0 = poseidonIv blake3 ∧
      (t.row 256 1, t.row 256 2) = changeOutput blake3 pi.changeRpCommitment := by
  have hall := h.assertion
  simp only [purchaseAir, getAssertions, List.forall_mem_cons] at hall
  obtain ⟨hacc, hpow, hiv, hlo, hhi, hiv', hlo', hhi', -⟩ := hall
  exact ⟨hacc, hpow, hiv, Prod.ext hlo hhi, hiv', Prod.ext hlo' hhi'⟩

/-- A stretch of 64 permutation steps that starts at a multiple of 64 computes
the permutation. -/
theorem poseidonPerm_of_steps (h : (purchaseAir blake3 pi).Satisfies t) {a : ℕ} (ha : 64 ∣ a)
    (hpos : ∀ i, i < 64 → IsPos (a + i)) :
    state (t.row (a + 64)) = poseidonPerm blake3 (state (t.row a)) := by
  refine eq_steps (x := fun i => state (t.row i)) fun i hi => ?_
  have hp := hpos i hi
  have hround : (a + i) % poseidonRounds = i := by
    rw [poseidonRounds]
    omega
  have hb : a + i ≠ 191 ∧ a + i < 511 := by
    unfold IsPos at hp
    omega
  have hstep := (step h hb.2 hb.1).1
  rwa [StateStep, if_pos hp, hround] at hstep

/-- The range phase: the accumulator ends in a 64-bit number, and keeps it until
the bridge. -/
theorem exists_accumulated (h : (purchaseAir blake3 pi).Satisfies t) :
    ∃ c : ℕ, c < 2 ^ 64 ∧ t.row 64 5 = c ∧ t.row 191 5 = c := by
  obtain ⟨hacc₀, hpow₀, -⟩ := asserted h
  have hrange (i : ℕ) (hi : i < 64) :
      (t.row i 4 = 0 ∨ t.row i 4 = 1) ∧ t.row (i + 1) 5 = t.row i 5 + t.row i 4 * t.row i 6 ∧
        t.row (i + 1) 6 = t.row i 6 + t.row i 6 := by
    have hstep := (step h (by omega : i < 511) (by omega)).2
    rwa [RangeStep, if_pos hi] at hstep
  have hacc := exists_nat_of_bits (fun i => t.row i 4) (fun i => t.row i 5)
    (fun i => t.row i 6) 0 64
    (by simpa using fun i hi => (hrange i hi).1) (by simpa using fun i hi => (hrange i hi).2.1)
    (by simpa using fun i hi => (hrange i hi).2.2)
    hacc₀ hpow₀
  obtain ⟨-, c, hc, hrow⟩ := hacc
  refine ⟨c, hc, hrow, ?_⟩
  have hfrozen := eq_of_frozen (x := fun i => t.row i 5) (a := 64) (b := 191) (i := 191)
    (fun i hai hib => by
      have hstep := (step h (by omega : i < 511) (by omega)).2
      rw [RangeStep, if_neg (by omega)] at hstep
      exact hstep.2.1) (by norm_num) le_rfl
  exact hfrozen.trans hrow

/-- The link step: the value of the spent note is the accumulator plus the
price. -/
theorem linked (h : (purchaseAir blake3 pi).Satisfies t) :
    t.row 64 1 = t.row 64 5 + ofU64 pi.price := by
  have hstep := (step h (by omega : 63 < 511) (by omega)).1
  rw [StateStep, if_neg (by decide)] at hstep
  simpa using hstep.2.1

/-- The spent note: its commitment is the output of the input permutation, which
starts from a value that is the price plus a 64-bit number. -/
theorem spent_opened (h : (purchaseAir blake3 pi).Satisfies t) :
    t.row 64 0 = poseidonIv blake3 ∧
      poseidonOutput blake3 (state (t.row 64)) = unpack pi.rpCommitment := by
  obtain ⟨-, -, hiv, hout, -⟩ := asserted h
  refine ⟨hiv, ?_⟩
  have hperm := poseidonPerm_of_steps h (a := 64) (by norm_num) fun i hi => by
    unfold IsPos
    omega
  rwa [poseidonOutput, ← hperm]

/-- The change note: the asserted output is that of the change permutation, with
nothing said about the value that it starts from. -/
theorem change_opened (h : (purchaseAir blake3 pi).Satisfies t) :
    t.row 192 0 = poseidonIv blake3 ∧
      poseidonOutput blake3 (state (t.row 192)) = changeOutput blake3 pi.changeRpCommitment := by
  obtain ⟨-, -, -, -, hiv, hout⟩ := asserted h
  refine ⟨hiv, ?_⟩
  have hperm := poseidonPerm_of_steps h (a := 192) (by norm_num) fun i hi => by
    unfold IsPos
    omega
  rwa [poseidonOutput, ← hperm]

/-- The two permutations of the trace open the commitments at the values `c` plus
the price and `c`, for one 64-bit `c`. -/
def ConservesValue (blake3 : List UInt8 → U8Array 32) (pi : PurchasePI)
    (t : Trace BaseElement 512 7) : Prop :=
  ∃ c : ℕ, c < 2 ^ 64 ∧ ∃ b cb : BaseElement × BaseElement,
    state (t.row 64) =
      ![poseidonIv blake3, BaseElement.new (c + pi.price.toNat), b.1, b.2] ∧
    poseidonOutput blake3 (state (t.row 64)) = unpack pi.rpCommitment ∧
    state (t.row 192) = ![poseidonIv blake3, BaseElement.new c, cb.1, cb.2] ∧
    poseidonOutput blake3 (state (t.row 192)) = changeOutput blake3 pi.changeRpCommitment

/-- The value that the input permutation starts from, in terms of the accumulator
before the bridge. -/
theorem spent_value (h : (purchaseAir blake3 pi).Satisfies t) :
    t.row 64 1 = t.row 191 5 + ofU64 pi.price := by
  obtain ⟨c, -, hacc, hkept⟩ := exists_accumulated h
  rw [linked h, hacc, hkept]

theorem bridged_of_conservesValue (h : (purchaseAir blake3 pi).Satisfies t)
    (hconserves : ConservesValue blake3 pi t) : t.row 192 1 = t.row 191 5 := by
  obtain ⟨c, -, b, cb, hspent, -, hchange, -⟩ := hconserves
  have hvalue : t.row 64 1 = BaseElement.new (c + pi.price.toNat) := (state_eq_iff.1 hspent).2.1
  have hchange' : t.row 192 1 = BaseElement.new c := (state_eq_iff.1 hchange).2.1
  rw [spent_value h] at hvalue
  rw [hchange']
  simpa [BaseElement.new, ofU64] using hvalue.symm

/-- An accepted trace conserves value exactly when the change permutation starts
from the accumulator, the one link that the circuit does not make. -/
theorem conservesValue_iff_bridged (blake3 : List UInt8 → U8Array 32) (pi : PurchasePI)
    (t : Trace BaseElement 512 7) (h : (purchaseAir blake3 pi).Satisfies t) :
    ConservesValue blake3 pi t ↔ t.row 192 1 = t.row 191 5 := by
  refine ⟨bridged_of_conservesValue h, fun hbridge => ?_⟩
  obtain ⟨c, hc, -, hkept⟩ := exists_accumulated h
  obtain ⟨hiv, hrp⟩ := spent_opened h
  obtain ⟨hiv', hcrp⟩ := change_opened h
  have hvalue : t.row 64 1 = BaseElement.new (c + pi.price.toNat) := by
    rw [spent_value h, hkept]
    simp [BaseElement.new, ofU64]
  refine ⟨c, hc, (t.row 64 2, t.row 64 3), (t.row 192 2, t.row 192 3), ?_, hrp, ?_, hcrp⟩
  · exact state_eq_iff.2 ⟨hiv, hvalue, rfl, rfl⟩
  · exact state_eq_iff.2 ⟨hiv', hbridge.trans hkept, rfl, rfl⟩

end Soundness

section Unrelated

variable (blake3 : List UInt8 → U8Array 32) (price : UInt64) (c : ℕ)
  (b : BaseElement × BaseElement) (change : PoseidonState)

/-- The state that opens the spent note at `c` plus the price. -/
def spentState : PoseidonState :=
  ![poseidonIv blake3, BaseElement.new (c + price.toNat), b.1, b.2]

/-- The state columns of a trace whose change permutation starts from any state. -/
def unrelatedState (i : ℕ) : PoseidonState :=
  if i < 64 then ![poseidonIv blake3, 0, b.1, b.2]
  else if i < 192 then
    steps (poseidonEvalRoundBase blake3) (min (i - 64) 64) (spentState blake3 price c b)
  else steps (poseidonEvalRoundBase blake3) (min (i - 192) 64) change

/-- The rows of that trace, with the bits of `c` in the range columns. -/
def unrelatedRow (i : ℕ) : Fin 7 → BaseElement :=
  let s := unrelatedState blake3 price c b change i
  ![s 0, s 1, s 2, s 3, mask (i < 64 ∧ c.testBit i = true), (c % 2 ^ min i 64 : ℕ), 2 ^ min i 64]

theorem state_unrelatedRow (i : ℕ) :
    state (unrelatedRow blake3 price c b change i) = unrelatedState blake3 price c b change i :=
  state_eq_iff.2 ⟨rfl, rfl, rfl, rfl⟩

variable {blake3 price c b change}

theorem unrelated_rangeStep {i : ℕ} :
    RangeStep i (unrelatedRow blake3 price c b change i)
      (unrelatedRow blake3 price c b change (i + 1)) := by
  by_cases hi : i < 64
  · have hmin : min i 64 = i ∧ min (i + 1) 64 = i + 1 := by omega
    have hbit : c.testBit i = decide (c / 2 ^ i % 2 = 1) := Nat.testBit_eq_decide_div_mod_eq
    have hacc : c % 2 ^ (i + 1) = c % 2 ^ i + 2 ^ i * (c / 2 ^ i % 2) := Nat.mod_pow_succ
    rw [RangeStep, if_pos hi]
    simp only [unrelatedRow, hmin.1, hmin.2, hi, true_and]
    refine ⟨?_, ?_, ?_⟩
    · by_cases h : c.testBit i = true
      · exact .inr (mask_pos h)
      · exact .inl (mask_neg h)
    · change ((c % 2 ^ (i + 1) : ℕ) : BaseElement) =
        ((c % 2 ^ i : ℕ) : BaseElement) + mask (c.testBit i = true) * 2 ^ i
      rcases Nat.mod_two_eq_zero_or_one (c / 2 ^ i) with h | h
      · simp [hacc, hbit, h]
      · simp [hacc, hbit, h]
    · change (2 ^ (i + 1) : BaseElement) = 2 ^ i + 2 ^ i
      ring
  · have hmin : min i 64 = 64 ∧ min (i + 1) 64 = 64 := by omega
    have hi' : ¬ i + 1 < 64 := by omega
    rw [RangeStep, if_neg hi]
    simp [unrelatedRow, hmin.1, hmin.2, hi, hi']

/-- The first row of the input permutation. -/
theorem unrelated_link (hc : c < 2 ^ 64) :
    unrelatedState blake3 price c b change 64 = spentState blake3 price c b ∧
      unrelatedRow blake3 price c b change 64 5 = (c : BaseElement) := by
  have hmod : c % 2 ^ min 64 64 = c := by rw [min_self, Nat.mod_eq_of_lt hc]
  refine ⟨?_, ?_⟩
  · rw [unrelatedState, if_neg (lt_irrefl _), if_pos (by norm_num), Nat.sub_self, Nat.zero_min,
      steps_zero]
  · change ((c % 2 ^ min 64 64 : ℕ) : BaseElement) = c
    rw [hmod]

theorem unrelated_frozen {i : ℕ} (hp : ¬ IsPos i) (hl : i ≠ 63) (hi : i ≠ 191) :
    unrelatedState blake3 price c b change (i + 1) = unrelatedState blake3 price c b change i := by
  have hcase : i < 63 ∨ (128 ≤ i ∧ i < 191) ∨ 256 ≤ i := by
    unfold IsPos at hp
    omega
  rcases hcase with h | ⟨h128, h191⟩ | h256
  · rw [unrelatedState, unrelatedState, if_pos (by omega), if_pos (by omega)]
  · have hmin : min (i + 1 - 64) 64 = 64 ∧ min (i - 64) 64 = 64 := by omega
    rw [unrelatedState, unrelatedState, if_neg (by omega), if_pos (by omega),
      if_neg (by omega), if_pos (by omega), hmin.1, hmin.2]
  · have hmin : min (i + 1 - 192) 64 = 64 ∧ min (i - 192) 64 = 64 := by omega
    rw [unrelatedState, unrelatedState, if_neg (by omega), if_neg (by omega),
      if_neg (by omega), if_neg (by omega), hmin.1, hmin.2]

theorem unrelated_round {i : ℕ} (hp : IsPos i) :
    unrelatedState blake3 price c b change (i + 1) =
      poseidonEvalRoundBase blake3 (i % poseidonRounds)
        (unrelatedState blake3 price c b change i) := by
  rcases hp with ⟨h64, h128⟩ | ⟨h192, h256⟩
  · obtain ⟨k, rfl⟩ := Nat.exists_eq_add_of_le h64
    have hk : (64 + k) % poseidonRounds = k := by rw [poseidonRounds]; omega
    have hmin : min (64 + k - 64) 64 = k ∧ min (64 + k + 1 - 64) 64 = k + 1 := by omega
    rw [unrelatedState, unrelatedState, if_neg (by omega), if_pos (by omega), if_neg (by omega),
      if_pos (by omega), hmin.1, hmin.2, hk, steps_succ]
  · obtain ⟨k, rfl⟩ := Nat.exists_eq_add_of_le h192
    have hk : (192 + k) % poseidonRounds = k := by rw [poseidonRounds]; omega
    have hmin : min (192 + k - 192) 64 = k ∧ min (192 + k + 1 - 192) 64 = k + 1 := by omega
    rw [unrelatedState, unrelatedState, if_neg (by omega), if_neg (by omega), if_neg (by omega),
      if_neg (by omega), hmin.1, hmin.2, hk, steps_succ]

theorem unrelated_stateStep (hc : c < 2 ^ 64) {i : ℕ} (hi : i ≠ 191) :
    StateStep blake3 (ofU64 price) i (unrelatedRow blake3 price c b change i)
      (unrelatedRow blake3 price c b change (i + 1)) := by
  have hcells (k : ℕ) := state_eq_iff.1 (state_unrelatedRow blake3 price c b change k)
  obtain ⟨h0, h1, h2, h3⟩ := hcells i
  obtain ⟨n0, n1, n2, n3⟩ := hcells (i + 1)
  unfold StateStep
  split_ifs with hp hl
  · rw [state_unrelatedRow, state_unrelatedRow, unrelated_round hp]
  · subst hl
    obtain ⟨hspent, hacc⟩ := @unrelated_link blake3 price c b change hc
    have hbefore : unrelatedState blake3 price c b change 63 = ![poseidonIv blake3, 0, b.1, b.2] :=
      if_pos (by norm_num)
    rw [hspent] at n0 n1 n2 n3
    rw [hbefore] at h0 h2 h3
    refine ⟨n0.trans h0.symm, ?_, n2.trans h2.symm, n3.trans h3.symm⟩
    rw [n1, hacc]
    simp [spentState, BaseElement.new, ofU64]
  · rw [unrelated_frozen hp hl hi] at n0 n1 n2 n3
    exact ⟨n0.trans h0.symm, n1.trans h1.symm, n2.trans h2.symm, n3.trans h3.symm⟩

/-- The circuit accepts any value in the change note: whatever `c` the spent note
is opened with, the change commitment may open to any other value. -/
theorem unrelated_satisfies (hc : c < 2 ^ 64) {pi : PurchasePI}
    (hrp : unpack pi.rpCommitment = poseidonOutput blake3 (spentState blake3 pi.price c b))
    (hiv : change 0 = poseidonIv blake3)
    (hcrp : changeOutput blake3 pi.changeRpCommitment = poseidonOutput blake3 change) :
    (purchaseAir blake3 pi).Satisfies
      (Trace.ofRows 512 (unrelatedRow blake3 pi.price c b change)) where
  transition i hi := by
    rw [Trace.row_ofRows _ (by omega), Trace.row_ofRows _ hi]
    refine evaluateTransition_eq_zero_iff.2 ?_
    by_cases hb : i = 191
    · exact .inl hb
    · exact .inr ⟨unrelated_stateStep hc hb, unrelated_rangeStep⟩
  assertion := by
    simp only [purchaseAir, getAssertions, List.forall_mem_cons, hrp, hcrp]
    have hrow {i : ℕ} (hi : i < 512) :=
      Trace.row_ofRows (unrelatedRow blake3 pi.price c b change) hi
    simp only [hrow (by norm_num : 0 < 512), hrow (by norm_num : 64 < 512),
      hrow (by norm_num : 128 < 512), hrow (by norm_num : 192 < 512),
      hrow (by norm_num : 256 < 512)]
    refine ⟨?_, ?_, rfl, rfl, rfl, hiv, rfl, rfl, by simp⟩
    · simp [unrelatedRow, Nat.mod_one]
    · simp [unrelatedRow]

/-- The initial state of the permutation asserted where there is no change note. -/
def noChange (blake3 : List UInt8 → U8Array 32) : PoseidonState :=
  ![poseidonIv blake3, ofU64 0, (unpack (U8Array.zero 32)).1, (unpack (U8Array.zero 32)).2]

theorem changeOutput_zero (blake3 : List UInt8 → U8Array 32) :
    changeOutput blake3 (U8Array.zero 32) = poseidonOutput blake3 (noChange blake3) := by
  rw [changeOutput, if_pos rfl, unpack_poseidonHash, noChange]

theorem noChange_value :
    (Trace.ofRows 512 (unrelatedRow blake3 price c b (noChange blake3))).row 192 1 = 0 := by
  rw [Trace.row_ofRows _ (by norm_num)]
  change BaseElement.new 0 = 0
  simp [BaseElement.new]

theorem kept_accumulator (hc : c < 2 ^ 64) :
    (Trace.ofRows 512 (unrelatedRow blake3 price c b change)).row 191 5 = (c : BaseElement) := by
  rw [Trace.row_ofRows _ (by norm_num)]
  change ((c % 2 ^ 64 : ℕ) : BaseElement) = c
  rw [Nat.mod_eq_of_lt hc]

/-- A purchase that spends exactly the price: the change permutation starts from
zero, which is the accumulator. -/
theorem exact_purchase_conservesValue :
    ∃ (pi : PurchasePI) (t : Trace BaseElement 512 7),
      (purchaseAir (fun _ => U8Array.zero 32) pi).Satisfies t ∧
        pi.changeRpCommitment = U8Array.zero 32 ∧
        (ConservesValue (fun _ => U8Array.zero 32) pi t ↔ t.row 192 1 = t.row 191 5) ∧
        t.row 192 1 = t.row 191 5 := by
  let blake3 : List UInt8 → U8Array 32 := fun _ => U8Array.zero 32
  let spent := poseidonOutput blake3 (spentState blake3 10 0 (0, 0))
  let pi : PurchasePI := ⟨pack spent.1 spent.2, U8Array.zero 32, 10⟩
  have haccepted : (purchaseAir blake3 pi).Satisfies
      (Trace.ofRows 512 (unrelatedRow blake3 10 0 (0, 0) (noChange blake3))) :=
    unrelated_satisfies (by norm_num) (unpack_pack _ _) rfl (changeOutput_zero blake3)
  refine ⟨pi, _, haccepted, rfl, conservesValue_iff_bridged blake3 pi _ haccepted, ?_⟩
  rw [noChange_value, kept_accumulator (by norm_num)]
  rfl

/-- The circuit does not conserve value, whatever the hash function: it accepts a
purchase at price 10 that spends a note of 11 and leaves no change. -/
theorem change_forgotten :
    ¬ ∃ blake3 : List UInt8 → U8Array 32,
      (∀ pi t, (purchaseAir blake3 pi).Satisfies t → ConservesValue blake3 pi t) ∨
      ∀ pi (t : Trace BaseElement 512 7), (purchaseAir blake3 pi).Satisfies t →
        pi.changeRpCommitment = U8Array.zero 32 → t.row 64 1 = ofU64 pi.price := by
  rintro ⟨blake3, hclaim⟩
  let spent := poseidonOutput blake3 (spentState blake3 10 1 (0, 0))
  let pi : PurchasePI := ⟨pack spent.1 spent.2, U8Array.zero 32, 10⟩
  let t : Trace BaseElement 512 7 :=
    Trace.ofRows 512 (unrelatedRow blake3 10 1 (0, 0) (noChange blake3))
  have haccepted : (purchaseAir blake3 pi).Satisfies t :=
    unrelated_satisfies (by norm_num) (unpack_pack _ _) rfl (changeOutput_zero blake3)
  have hspent : t.row 64 1 = BaseElement.new 11 := rfl
  rcases hclaim with hsound | hforced
  · have hbridge := bridged_of_conservesValue haccepted (hsound pi t haccepted)
    rw [noChange_value, kept_accumulator (by norm_num), Nat.cast_one] at hbridge
    exact zero_ne_one hbridge
  · have hprice : BaseElement.new 11 = BaseElement.new 10 :=
      hspent.symm.trans (hforced pi t haccepted rfl)
    have h := BaseElement.new_inj (by rw [baseModulus_eq]; norm_num)
      (by rw [baseModulus_eq]; norm_num) hprice
    omega

end Unrelated

end NullaRelay.ProofHub.PurchaseAir
