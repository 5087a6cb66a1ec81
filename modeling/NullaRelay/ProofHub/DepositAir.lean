import NullaRelay.ProofHub.SpendAir
import NullaRelay.ProofHub.TraceTable

/-!
# The circuit of a v2 deposit

256 rows in two blocks of 128, one for each permutation of the note hash: the first
step of the first block holds the initial state, the first step of the second
absorbs the key digest, which two more columns carry. The circuit shows that the
public leaf is a note of the public amount; the prover's trace shows it for every
note.
-/

namespace NullaRelay.ProofHub.DepositAir

open Air V2
open SpendAir (absorb absorb_iff)

/-- The public inputs. -/
structure DepositPI where
  amount : UInt64
  leaf : U8Array 32

section Schedule

variable (i : ℕ)

/-- Steps of the round function, by `deposit_masks`. -/
def IsRnd : Prop := i / 128 < 2 ∧ 1 ≤ i % 128 ∧ i % 128 ≤ 64

def IsFrz : Prop := i / 128 < 2 ∧ 65 ≤ i % 128 ∨ i = 0

instance : Decidable (IsRnd i) := inferInstanceAs (Decidable (_ ∧ _ ∧ _))

instance : Decidable (IsFrz i) := inferInstanceAs (Decidable (_ ∧ _ ∨ _))

end Schedule

/-- The periodic columns at one step: round constants and schedule masks. -/
structure Periodic where
  rc : Fin 4 → BaseElement
  isf : BaseElement
  mRnd : BaseElement
  mFrz : BaseElement
  mAbs : BaseElement

variable (blake3 : List UInt8 → U8Array 32)

/-- `poseidon_periodic_128` and `deposit_masks`. -/
def periodic (i : ℕ) : Periodic :=
  let s := i % 128
  { rc := fun j => if 1 ≤ s ∧ s ≤ 64 then poseidonRc blake3 (s - 1) j else 0
    isf := mask (1 ≤ s ∧ s ≤ 64 ∧ isFullRound (s - 1))
    mRnd := mask (IsRnd i)
    mFrz := mask (IsFrz i)
    mAbs := mask (i = 128) }

/-- A row of the trace. -/
abbrev Row := Fin 6 → BaseElement

/-- The columns that hold the state of the permutation. -/
def state (row : Row) : PoseidonState := ![row 0, row 1, row 2, row 3]

def stateConstraint (p : Periodic) (c n : Row) (j : Fin 4) : BaseElement :=
  let exp := poseidonRound p.rc p.isf (state c)
  let absorb := ![0, c 4, c 5, 0]
  p.mRnd * (state n j - exp j) + p.mFrz * (state n j - state c j)
    + p.mAbs * (state n j - state c j - absorb j)

def evaluateTransition (p : Periodic) (c n : Row) : Fin 6 → BaseElement :=
  let r := stateConstraint p c n
  ![r 0, r 1, r 2, r 3, n 4 - c 4, n 5 - c 5]

def getAssertions (pi : DepositPI) : List (Assertion BaseElement 6) :=
  let l := unpack pi.leaf
  [⟨0, 0, noteIv blake3⟩, ⟨1, 0, ofU64 pi.amount⟩, ⟨1, 193, l.1⟩, ⟨2, 193, l.2⟩]

/-- `DepositV2Air`. -/
def depositV2Air (pi : DepositPI) : Air BaseElement 6 6 where
  evaluateTransition i c n := evaluateTransition (periodic blake3 i) c n
  assertions := getAssertions blake3 pi

/-- What the constraints at step `i` ask of two consecutive rows. -/
structure Step (i : ℕ) (c n : Row) : Prop where
  round : IsRnd i → state n = poseidonEvalRoundBase blake3 (i % 128 - 1) (state c)
  hold : IsFrz i → state n = state c
  absorbed : i = 128 → state n = absorb (state c) (c 4, c 5)
  key : n 4 = c 4 ∧ n 5 = c 5

variable {blake3} {pi : DepositPI} {i : ℕ} {c n : Row}

/-- The three masks are disjoint. -/
theorem stateConstraint_eq_zero_iff : (∀ j, stateConstraint (periodic blake3 i) c n j = 0) ↔
    (IsRnd i → state n = poseidonEvalRoundBase blake3 (i % 128 - 1) (state c)) ∧
      (IsFrz i → state n = state c) ∧ (i = 128 → state n = absorb (state c) (c 4, c 5)) := by
  by_cases hrnd : IsRnd i
  · have hs : 1 ≤ i % 128 ∧ i % 128 ≤ 64 := hrnd.2
    have hfrz : ¬ IsFrz i := by
      unfold IsFrz
      omega
    have habs : i ≠ 128 := by omega
    simp [stateConstraint, periodic, hrnd, hfrz, habs, hs, poseidonEvalRoundBase, funext_iff,
      sub_eq_zero]
  · by_cases hfrz : IsFrz i
    · have habs : i ≠ 128 := by
        unfold IsFrz at hfrz
        omega
      simp [stateConstraint, periodic, hrnd, hfrz, habs, funext_iff, sub_eq_zero]
    · by_cases habs : i = 128
      · subst habs
        simp [stateConstraint, periodic, hrnd, hfrz, absorb_iff]
      · simp [stateConstraint, periodic, hrnd, hfrz, habs]

theorem evaluateTransition_eq_zero_iff :
    evaluateTransition (periodic blake3 i) c n = 0 ↔ Step blake3 i c n := by
  simp only [evaluateTransition, Matrix.cons_eq_zero_iff, Matrix.zero_empty, and_true]
  constructor
  · rintro ⟨h0, h1, h2, h3, h4, h5⟩
    have hstate : ∀ j, stateConstraint (periodic blake3 i) c n j = 0 := by
      intro j
      fin_cases j
      exacts [h0, h1, h2, h3]
    obtain ⟨hrnd, hfrz, habs⟩ := stateConstraint_eq_zero_iff.1 hstate
    exact ⟨hrnd, hfrz, habs, sub_eq_zero.1 h4, sub_eq_zero.1 h5⟩
  · intro h
    have hstate := stateConstraint_eq_zero_iff.2 ⟨h.round, h.hold, h.absorbed⟩
    exact ⟨hstate 0, hstate 1, hstate 2, hstate 3, sub_eq_zero.2 h.key.1, sub_eq_zero.2 h.key.2⟩

section Trace

variable {t : Trace BaseElement 256 6}

variable (blake3 t) in
/-- All steps of a trace. -/
def Runs : Prop := ∀ i, i < 255 → Step blake3 i (t.row i) (t.row (i + 1))

theorem satisfies_iff : (depositV2Air blake3 pi).Satisfies t ↔
    Runs blake3 t ∧ t.row 0 0 = noteIv blake3 ∧ t.row 0 1 = ofU64 pi.amount ∧
      (t.row 193 1, t.row 193 2) = unpack pi.leaf := by
  constructor
  · intro h
    have hall := h.assertion
    simp only [depositV2Air, getAssertions, List.forall_mem_cons] at hall
    obtain ⟨hiv, hamount, hlo, hhi, -⟩ := hall
    refine ⟨fun i hi => ?_, hiv, hamount, Prod.ext hlo hhi⟩
    exact evaluateTransition_eq_zero_iff.1 (h.transition i (by omega))
  · rintro ⟨hrun, hiv, hamount, hleaf⟩
    constructor
    · intro i hi
      exact evaluateTransition_eq_zero_iff.2 (hrun i (by omega))
    · simp only [depositV2Air, getAssertions, List.forall_mem_cons]
      refine ⟨hiv, hamount, congrArg Prod.fst hleaf, congrArg Prod.snd hleaf, ?_⟩
      simp

/-- The key digest is carried over the whole trace. -/
theorem Runs.key (h : Runs blake3 t) (hi : i ≤ 255) :
    (t.row i 4, t.row i 5) = (t.row 0 4, t.row 0 5) :=
  eq_of_frozen (x := fun i => (t.row i 4, t.row i 5))
    (fun j _ hj => Prod.ext (h j hj).key.1 (h j hj).key.2) (Nat.zero_le i) hi

/-- A block runs the permutation. -/
theorem Runs.perm (h : Runs blake3 t) {b : ℕ} (hb : b < 2) :
    state (t.row (128 * b + 65)) = poseidonPerm blake3 (state (t.row (128 * b + 1))) := by
  refine eq_steps (x := fun i => state (t.row i)) (a := 128 * b + 1) (k := 64) fun k hk => ?_
  have hround : (128 * b + 1 + k) % 128 - 1 = k := by omega
  have hrnd : IsRnd (128 * b + 1 + k) := by
    unfold IsRnd
    omega
  have hstep := (h (128 * b + 1 + k) (by omega)).round hrnd
  rwa [hround] at hstep

/-- The two blocks hash the note whose amount and blinding are in the first row. -/
theorem Runs.note_eq (h : Runs blake3 t) (hiv : t.row 0 0 = noteIv blake3) {v : UInt64}
    (hv : t.row 0 1 = ofU64 v) :
    (t.row 193 1, t.row 193 2) =
      (poseidonHashes blake3).note v (t.row 0 2, t.row 0 3) (t.row 0 4, t.row 0 5) := by
  have hinit : state (t.row 1) = ![noteIv blake3, ofU64 v, t.row 0 2, t.row 0 3] := by
    rw [(h 0 (by decide)).hold (.inr rfl), state, hiv, hv]
  have hfirst := h.perm (b := 0) (by decide)
  have hhold : state (t.row 128) = state (t.row 65) := by
    refine eq_of_frozen (x := fun i => state (t.row i)) (fun i hlo hhi => ?_)
      (by decide : 65 ≤ 128) le_rfl
    exact (h i (by omega)).hold (.inl ⟨by omega, by omega⟩)
  have habsorb : state (t.row 129) = absorb (state (t.row 128)) (t.row 0 4, t.row 0 5) := by
    rw [← h.key (i := 128) (by decide)]
    exact (h 128 (by decide)).absorbed rfl
  have hsecond := h.perm (b := 1) (by decide)
  rw [mul_zero, zero_add, zero_add, hinit] at hfirst
  rw [mul_one, habsorb, hhold, hfirst] at hsecond
  exact Prod.ext (congrFun hsecond 1) (congrFun hsecond 2)

end Trace

/-- `cols[4][r] = pkd_lo; cols[5][r] = pkd_hi`. -/
def carryKey (pkd : Pair) (row : ℕ → BaseElement) : ℕ → BaseElement :=
  Function.update (Function.update row 4 pkd.1) 5 pkd.2

variable (blake3) in
/-- `build_deposit_trace`. -/
def buildDepositTrace (v : UInt64) (b pkd : U8Array 32) : Trace BaseElement 256 6 :=
  let n := 256
  let cols : Table := fun _ _ => 0
  let b := unpack b
  let pkd := unpack pkd
  let cols := writeRows (fun _ _ => carryKey pkd) 0 n cols
  let cols := setState cols 0 ![noteIv blake3, ofU64 v, b.1, b.2]
  let cols := freezeStateRows cols 1 1
  let cols := runPermRows blake3 cols 1
  let cols := freezeStateRows cols 66 128
  let cols := setState cols 129
    ![cols 128 0, cols 128 1 + pkd.1, cols 128 2 + pkd.2, cols 128 3]
  let cols := runPermRows blake3 cols 129
  let cols := freezeStateRows cols 194 (n - 1)
  Trace.ofRows n fun r c => cols r c

section Prover

variable {v : UInt64} {b pkd : U8Array 32}

theorem state_row (cols : Table) (r : ℕ) : state (fun c => cols r c) = stateAt cols r := by
  funext j
  fin_cases j <;> rfl

variable (blake3 v b pkd) in
/-- What the prover's table consists of: the key digest in every row, the two blocks,
and what they start from. -/
structure IsDepositTable (cols : Table) : Prop where
  key : ∀ r, r < 256 → cols r 4 = (unpack pkd).1 ∧ cols r 5 = (unpack pkd).2
  initial : stateAt cols 0 = ![noteIv blake3, ofU64 v, (unpack b).1, (unpack b).2]
  held : stateAt cols 1 = stateAt cols 0
  first : IsBlock blake3 cols 0 128
  absorbed : stateAt cols 129 = absorb (stateAt cols 128) (unpack pkd)
  second : IsBlock blake3 cols 128 255

theorem buildDepositTrace_eq : ∃ cols, IsDepositTable blake3 v b pkd cols ∧
    buildDepositTrace blake3 v b pkd = Trace.ofRows 256 fun r c => cols r c := by
  obtain ⟨cols₀, h₀⟩ : ∃ cols : Table, cols =
      writeRows (fun _ _ => carryKey (unpack pkd)) 0 256 fun _ _ => 0 := ⟨_, rfl⟩
  obtain ⟨cols₁, h₁⟩ : ∃ cols, cols = freezeStateRows (setState cols₀ 0
      ![noteIv blake3, ofU64 v, (unpack b).1, (unpack b).2]) 1 1 := ⟨_, rfl⟩
  obtain ⟨cols₂, h₂⟩ : ∃ cols, cols = freezeStateRows (runPermRows blake3 cols₁ 1) 66 128 :=
    ⟨_, rfl⟩
  obtain ⟨cols₃, h₃⟩ : ∃ cols, cols = setState cols₂ 129 ![cols₂ 128 0,
      cols₂ 128 1 + (unpack pkd).1, cols₂ 128 2 + (unpack pkd).2, cols₂ 128 3] := ⟨_, rfl⟩
  obtain ⟨cols₄, h₄⟩ : ∃ cols, cols = freezeStateRows (runPermRows blake3 cols₃ 129) 194 255 :=
    ⟨_, rfl⟩
  have hfirst : RunsBlock blake3 cols₁ cols₂ 0 128 := h₂ ▸ runsBlock cols₁ (by decide)
  have hsecond : RunsBlock blake3 cols₃ cols₄ 128 255 := h₄ ▸ runsBlock cols₃ (by decide)
  have hearly (r : ℕ) (hr : r ≤ 128) : cols₄ r = cols₂ r := by
    rw [hsecond.outside r (by omega), h₃, setState_of_ne (by omega)]
  have hstate (r : ℕ) (hr : r ≤ 128) : stateAt cols₄ r = stateAt cols₂ r := by
    unfold stateAt
    rw [hearly r hr]
  have hrow (r : ℕ) (hr : r ≤ 1) : stateAt cols₄ r = stateAt cols₁ r := by
    rw [hstate r (by omega)]
    unfold stateAt
    rw [hfirst.outside r (by omega)]
  have hcolumn (r c : ℕ) (hc : 4 ≤ c) : cols₄ r c = cols₀ r c := by
    rw [hsecond.columns r c hc, h₃, setState_column hc, hfirst.columns r c hc, h₁,
      freezeStateRows_column hc, setState_column hc]
  refine ⟨cols₄, ?_, ?_⟩
  · constructor
    · intro r hr
      have hwritten : cols₀ (0 + r) = carryKey (unpack pkd) fun _ => 0 := by
        rw [h₀]
        exact writeRows_map (f := fun _ => carryKey (unpack pkd)) hr
      rw [zero_add] at hwritten
      rw [hcolumn r 4 le_rfl, hcolumn r 5 (by decide), hwritten]
      simp [carryKey]
    · rw [hrow 0 (by decide), h₁]
      unfold stateAt
      rw [freezeStateRows_of_not_mem (.inl (by decide)) (by decide)]
      exact stateAt_setState
    · rw [hrow 1 le_rfl, hrow 0 (by decide), h₁]
      exact stateAt_freezeStateRows (by decide) le_rfl le_rfl
    · exact hfirst.block.congr (by decide) fun r _ hr => hearly r hr
    · rw [hstate 128 le_rfl]
      have hlink : stateAt cols₄ 129 = stateAt cols₃ 129 := by
        unfold stateAt
        rw [hsecond.outside 129 (.inl le_rfl)]
      rw [hlink, h₃, stateAt_setState]
      rfl
    · exact hsecond.block
  · rw [h₄, h₃, h₂, h₁, h₀]
    rfl

/-- The steps of the prover's table. -/
theorem IsDepositTable.runs {cols : Table} (h : IsDepositTable blake3 v b pkd cols) :
    Runs blake3 (Trace.ofRows 256 fun r (c : Fin 6) => cols r c) := by
  intro i hi
  rw [Trace.row_ofRows _ (by omega), Trace.row_ofRows _ (by omega)]
  have hkey := h.key i (by omega)
  have hkey' := h.key (i + 1) (by omega)
  constructor
  · rintro ⟨hblock, hlo, hhi⟩
    rw [state_row, state_row]
    obtain ⟨k, hk⟩ := Nat.exists_eq_add_of_le hlo
    rcases (by omega : i = 0 + 1 + k ∨ i = 128 + 1 + k) with rfl | rfl
    · rw [h.first.round k (by omega), hk, Nat.add_sub_cancel_left]
    · rw [h.second.round k (by omega), hk, Nat.add_sub_cancel_left]
  · intro hfrz
    rw [state_row, state_row]
    rcases hfrz with ⟨hblock, hlo⟩ | rfl
    · rcases (by omega : i < 128 ∨ 128 + 65 ≤ i) with hlt | hge
      · exact h.first.hold i (by omega) hlt
      · exact h.second.hold i hge hi
    · exact h.held
  · rintro rfl
    rw [state_row, state_row, h.absorbed]
    exact congrArg (absorb _) (Prod.ext hkey.1.symm hkey.2.symm)
  · exact ⟨hkey'.1.trans hkey.1.symm, hkey'.2.trans hkey.2.symm⟩

/-- The prover's trace satisfies the circuit for every leaf that stands for its
note. -/
theorem buildDepositTrace_satisfies {leaf : U8Array 32}
    (hleaf : unpack leaf = unpack (noteHash (poseidonHashes blake3) v b pkd)) :
    (depositV2Air blake3 ⟨v, leaf⟩).Satisfies (buildDepositTrace blake3 v b pkd) := by
  obtain ⟨cols, hcols, heq⟩ := @buildDepositTrace_eq blake3 v b pkd
  have hrun := hcols.runs
  have hinit (j : Fin 4) := congrFun hcols.initial j
  have hkey := hcols.key 0 (by decide)
  have hrow (r : ℕ) (hr : r < 256) (c : Fin 6) :
      (Trace.ofRows 256 fun r (c : Fin 6) => cols r c).row r c = cols r c := by
    rw [Trace.row_ofRows _ hr]
  rw [heq]
  refine satisfies_iff.2 ⟨hrun, (hrow 0 (by decide) 0).trans (hinit 0),
    (hrow 0 (by decide) 1).trans (hinit 1), ?_⟩
  rw [hrun.note_eq ((hrow 0 (by decide) 0).trans (hinit 0))
    ((hrow 0 (by decide) 1).trans (hinit 1)), hleaf, unpack_noteHash]
  have hblinding : ((Trace.ofRows 256 fun r (c : Fin 6) => cols r c).row 0 2,
      (Trace.ofRows 256 fun r (c : Fin 6) => cols r c).row 0 3) = unpack b :=
    Prod.ext ((hrow 0 (by decide) 2).trans (hinit 2)) ((hrow 0 (by decide) 3).trans (hinit 3))
  have hdigest : ((Trace.ofRows 256 fun r (c : Fin 6) => cols r c).row 0 4,
      (Trace.ofRows 256 fun r (c : Fin 6) => cols r c).row 0 5) = unpack pkd :=
    Prod.ext ((hrow 0 (by decide) 4).trans hkey.1) ((hrow 0 (by decide) 5).trans hkey.2)
  rw [hblinding, hdigest]

end Prover

/-- The circuit accepts a leaf exactly when it stands for a note of the amount, and
the prover's trace for a note is accepted. -/
theorem deposit_air_exact (blake3 : List UInt8 → U8Array 32) :
    (∀ (amount : UInt64) (leaf : U8Array 32),
      (∃ t : Trace BaseElement 256 6, (depositV2Air blake3 ⟨amount, leaf⟩).Satisfies t) ↔
        ∃ b pkd, unpack leaf = unpack (noteHash (poseidonHashes blake3) amount b pkd)) ∧
      ∀ (v : UInt64) (b pkd : U8Array 32),
        (depositV2Air blake3 ⟨v, noteHash (poseidonHashes blake3) v b pkd⟩).Satisfies
          (buildDepositTrace blake3 v b pkd) := by
  refine ⟨fun amount leaf => ⟨?_, ?_⟩, fun v b pkd => buildDepositTrace_satisfies rfl⟩
  · rintro ⟨t, ht⟩
    obtain ⟨hrun, hiv, hamount, hleaf⟩ := satisfies_iff.1 ht
    refine ⟨packPair (t.row 0 2, t.row 0 3), packPair (t.row 0 4, t.row 0 5), ?_⟩
    rw [unpack_noteHash, unpack_packPair, unpack_packPair, ← hrun.note_eq hiv hamount, hleaf]
  · rintro ⟨b, pkd, hleaf⟩
    exact ⟨_, buildDepositTrace_satisfies hleaf⟩

end NullaRelay.ProofHub.DepositAir
