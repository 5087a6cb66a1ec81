import NullaRelay.ProofHub.Poseidon

/-!
# The circuit of a v1 deposit

128 rows of the permutation, so that row 64 holds its output for the first row.
The assertions name the value in the first row and the output in row 64. Nothing
is said about the first cell of the first row, which the hash fills with the
initial value: a trace is determined by its first row, and the circuit accepts
it for every first row that holds the value.
-/

namespace NullaRelay.ProofHub.DepositCommitAir

open Air

/-- The public inputs. -/
structure DepositCommitPI where
  v : UInt64
  rpCommitment : U8Array 32

/-- The periodic columns at one step. -/
structure Periodic where
  rc : Fin 4 → BaseElement
  isFull : BaseElement

variable (blake3 : List UInt8 → U8Array 32)

/-- `poseidon_periodic`, of period 64. -/
def poseidonPeriodic (i : ℕ) : Periodic :=
  { rc := poseidonRc blake3 (i % poseidonRounds)
    isFull := mask (isFullRound (i % poseidonRounds)) }

def evaluateTransition (p : Periodic) (c n : Fin 4 → BaseElement) : Fin 4 → BaseElement :=
  let exp := poseidonRound p.rc p.isFull c
  ![n 0 - exp 0, n 1 - exp 1, n 2 - exp 2, n 3 - exp 3]

def getAssertions (pi : DepositCommitPI) : List (Assertion BaseElement 4) :=
  let rp := unpack pi.rpCommitment
  [⟨1, 0, ofU64 pi.v⟩, ⟨1, poseidonRounds, rp.1⟩, ⟨2, poseidonRounds, rp.2⟩]

/-- `DepositCommitAir`. -/
def depositCommitAir (pi : DepositCommitPI) : Air BaseElement 4 4 where
  evaluateTransition i c n := evaluateTransition (poseidonPeriodic blake3 i) c n
  assertions := getAssertions pi

/-- The row at a step of the trace that starts from a state. -/
def rowFrom (s : PoseidonState) (i : ℕ) : PoseidonState :=
  steps (fun k => poseidonEvalRoundBase blake3 (k % poseidonRounds)) i s

/-- The trace of the rounds from a state on. -/
def traceFrom (s : PoseidonState) : Trace BaseElement 128 4 := Trace.ofRows 128 (rowFrom blake3 s)

variable {blake3} {pi : DepositCommitPI} {t : Trace BaseElement 128 4} {s : PoseidonState}

theorem evaluateTransition_eq_zero_iff {i : ℕ} {c n : Fin 4 → BaseElement} :
    evaluateTransition (poseidonPeriodic blake3 i) c n = 0 ↔
      n = poseidonEvalRoundBase blake3 (i % poseidonRounds) c := by
  have hsub : evaluateTransition (poseidonPeriodic blake3 i) c n =
      n - poseidonEvalRoundBase blake3 (i % poseidonRounds) c := by
    funext j
    fin_cases j <;> rfl
  rw [hsub, sub_eq_zero]

theorem rowFrom_succ (s : PoseidonState) (i : ℕ) : rowFrom blake3 s (i + 1) =
    poseidonEvalRoundBase blake3 (i % poseidonRounds) (rowFrom blake3 s i) := rfl

/-- The first 64 rounds are the permutation. -/
theorem rowFrom_poseidonRounds (s : PoseidonState) :
    rowFrom blake3 s poseidonRounds = poseidonPerm blake3 s := by
  have hperm := eq_steps (f := poseidonEvalRoundBase blake3) (x := rowFrom blake3 s) (a := 0)
    (k := poseidonRounds) fun i hi => by
      have hround : (0 + i) % poseidonRounds = i := by rw [zero_add, Nat.mod_eq_of_lt hi]
      rw [rowFrom_succ, hround]
  rwa [zero_add] at hperm

theorem row_traceFrom (s : PoseidonState) {i : ℕ} (hi : i < 128) :
    (traceFrom blake3 s).row i = rowFrom blake3 s i := Trace.row_ofRows _ hi

/-- The circuit accepts the traces of the rounds that start from a state with the value,
and end in the output. -/
theorem satisfies_iff : (depositCommitAir blake3 pi).Satisfies t ↔
    (∀ i, i < 128 → t.row i = rowFrom blake3 (t.row 0) i) ∧ t.row 0 1 = ofU64 pi.v ∧
      poseidonOutput blake3 (t.row 0) = unpack pi.rpCommitment := by
  constructor
  · intro h
    have hrows (i : ℕ) (hi : i < 128) : t.row i = rowFrom blake3 (t.row 0) i := by
      induction i with
      | zero => rfl
      | succ i ih =>
          rw [evaluateTransition_eq_zero_iff.1 (h.transition i hi), ih (by omega), rowFrom_succ]
    have hall := h.assertion
    simp only [depositCommitAir, getAssertions, List.forall_mem_cons] at hall
    obtain ⟨hv, hlo, hhi, -⟩ := hall
    have houtput : t.row poseidonRounds = poseidonPerm blake3 (t.row 0) := by
      rw [hrows poseidonRounds (by decide), rowFrom_poseidonRounds]
    rw [houtput] at hlo hhi
    exact ⟨hrows, hv, Prod.ext hlo hhi⟩
  · rintro ⟨hrows, hv, houtput⟩
    constructor
    · intro i hi
      refine evaluateTransition_eq_zero_iff.2 ?_
      rw [hrows (i + 1) hi, hrows i (by omega), rowFrom_succ]
    · have hperm : t.row poseidonRounds = poseidonPerm blake3 (t.row 0) := by
        rw [hrows poseidonRounds (by decide), rowFrom_poseidonRounds]
      simp only [poseidonOutput, Prod.ext_iff] at houtput
      obtain ⟨hlo, hhi⟩ := houtput
      simp only [depositCommitAir, getAssertions, List.forall_mem_cons, hperm]
      refine ⟨hv, hlo, hhi, ?_⟩
      simp

/-- Every state with the value in its second cell is the first row of an accepted
trace. -/
theorem traceFrom_satisfies (hv : s 1 = ofU64 pi.v)
    (houtput : poseidonOutput blake3 s = unpack pi.rpCommitment) :
    (depositCommitAir blake3 pi).Satisfies (traceFrom blake3 s) := by
  have hfirst : (traceFrom blake3 s).row 0 = s := row_traceFrom s (by decide)
  refine satisfies_iff.2 ⟨fun i hi => ?_, ?_, ?_⟩
  · rw [hfirst, row_traceFrom s hi]
  · rw [hfirst, hv]
  · rw [hfirst, houtput]

/-- The honest prover: the note's own hash is accepted. -/
theorem honest_satisfies (v : UInt64) (blinding : U8Array 32) :
    (depositCommitAir blake3 ⟨v, poseidonHash blake3 v blinding⟩).Satisfies
      (traceFrom blake3
        ![poseidonIv blake3, ofU64 v, (unpack blinding).1, (unpack blinding).2]) :=
  traceFrom_satisfies rfl (unpack_poseidonHash blake3 v blinding).symm

/-- The first row of the trace is the initial value, the value and a blinding, and the
commitment stands for the hash of the two. -/
def OpensCommitment (blake3 : List UInt8 → U8Array 32) (pi : DepositCommitPI)
    (t : Trace BaseElement 128 4) : Prop :=
  ∃ blinding : U8Array 32,
    t.row 0 = ![poseidonIv blake3, ofU64 pi.v, (unpack blinding).1, (unpack blinding).2] ∧
      unpack pi.rpCommitment = unpack (poseidonHash blake3 pi.v blinding)

/-- An accepted trace opens the commitment exactly when its first cell holds the initial
value, the one input of the hash that the circuit does not assert. -/
theorem opensCommitment_iff_capacity (blake3 : List UInt8 → U8Array 32) (pi : DepositCommitPI)
    (t : Trace BaseElement 128 4) (h : (depositCommitAir blake3 pi).Satisfies t) :
    OpensCommitment blake3 pi t ↔ t.row 0 0 = poseidonIv blake3 := by
  obtain ⟨-, hv, houtput⟩ := satisfies_iff.1 h
  constructor
  · rintro ⟨blinding, hrow, -⟩
    rw [hrow]
    rfl
  · intro hiv
    have hrow : t.row 0 = ![poseidonIv blake3, ofU64 pi.v,
        (unpack (pack (t.row 0 2) (t.row 0 3))).1, (unpack (pack (t.row 0 2) (t.row 0 3))).2] := by
      funext j
      fin_cases j
      · exact hiv
      · exact hv
      · simp
      · simp
    refine ⟨pack (t.row 0 2) (t.row 0 3), hrow, ?_⟩
    rw [unpack_poseidonHash, ← hrow, houtput]

/-- The condition can be met: by the honest trace. -/
theorem opensCommitment_honest :
    OpensCommitment (fun _ => U8Array.zero 32)
      ⟨10, poseidonHash (fun _ => U8Array.zero 32) 10 (U8Array.zero 32)⟩
      (traceFrom (fun _ => U8Array.zero 32)
        ![poseidonIv fun _ => U8Array.zero 32, ofU64 10, (unpack (U8Array.zero 32)).1,
          (unpack (U8Array.zero 32)).2]) :=
  (opensCommitment_iff_capacity _ _ _ (honest_satisfies 10 (U8Array.zero 32))).2
    (congrFun (row_traceFrom _ (by decide)) 0)

/-- A state that holds the value 10 under a capacity other than the initial value. -/
def forgedState (blake3 : List UInt8 → U8Array 32) : PoseidonState :=
  ![poseidonIv blake3 + 1, ofU64 10, 0, 0]

/-- Whatever the hash function, the circuit accepts a commitment to the value 10 that no
first row of the documented form leads to. -/
theorem capacity_forged :
    ¬ ∃ blake3 : List UInt8 → U8Array 32, ∀ pi (t : Trace BaseElement 128 4),
      (depositCommitAir blake3 pi).Satisfies t → OpensCommitment blake3 pi t := by
  rintro ⟨blake3, hclaim⟩
  let out := poseidonOutput blake3 (forgedState blake3)
  have haccepted : (depositCommitAir blake3 ⟨10, pack out.1 out.2⟩).Satisfies
      (traceFrom blake3 (forgedState blake3)) :=
    traceFrom_satisfies rfl (unpack_pack out.1 out.2).symm
  obtain ⟨blinding, hrow, -⟩ := hclaim _ _ haccepted
  rw [row_traceFrom _ (by decide)] at hrow
  have hcapacity : poseidonIv blake3 + 1 = poseidonIv blake3 := congrFun hrow 0
  exact one_ne_zero (add_eq_left.1 hcapacity)

end NullaRelay.ProofHub.DepositCommitAir
