import NullaRelay.ScanProof.Marks
import NullaRelay.ScanProof.Deposit
import NullaRelay.ScanProof.NotePurchases
import NullaRelay.Foundations.Transition

/-!
# The note lane

A note is spent by naming its commitment together with a nullifier, which the
pallet marks. The nullifier is an argument of the call and is bound to the note
only in the transcript of the opening proof, so a note can be spent once under
each nullifier its owner likes. When every spend of a commitment carries one
nullifier, the one that a function of the commitment gives, no commitment is
consumed twice in any run.
-/

namespace NullaRelay.ScanProof

open Verifier NullaRelay.Frame Transition

variable {A L : Type} {T : Config A L}

/-- The commitments that a call consumes. -/
def Call.consumed {R : ℕ} : Call R → List (U8Array 32)
  | .submitProof _ _ publicInputs _ =>
      ((ProofPublicInputs.decode publicInputs).map ProofPublicInputs.inputCommitments).getD []
  | .purchaseRwa inputCommitment _ _ _ _ _ _ => [inputCommitment]
  | .withdrawPrivate commitment _ _ _ _ => [commitment]
  | .purchaseAccess inputCommitment _ _ _ _ _ _ => [inputCommitment]
  | _ => []

/-- Of the calls that succeeded, no two consumptions are of one commitment of
the index. -/
def NoDoubleSpend {R : ℕ} (hist : List (State L × Extrinsic A R)) (s : State L) : Prop :=
  ∀ c, (s.commitmentIndex c).isSome → (hist.flatMap fun e => e.2.call.consumed).count c ≤ 1

/-- The nullifiers of a call are those that `nf` gives its commitments. -/
def NullifiersDerived (nf : U8Array 32 → U8Array 32) {R : ℕ} (x : Extrinsic A R) : Prop :=
  x.call.nullifiers = x.call.consumed.map nf

/-- An admitted call names each nullifier once. -/
theorem apply_nullifiers_nodup {s s' : State L} {x : Extrinsic A T.maxRangeProofSize}
    (h : apply T s x = .ok s') : x.call.nullifiers.Nodup := by
  obtain ⟨hvalid, hdispatch⟩ := apply_eq_ok.1 h
  cases hcall : x.call with
  | submitProof proof rp pi hints =>
      rw [hcall] at hdispatch
      simp only [dispatch, submitProof, bind_eq_ok, ensureNone_eq_ok, exists_and_left] at hdispatch
      cases x with
      | unsigned c =>
          obtain rfl : c = .submitProof proof rp pi hints := hcall
          obtain ⟨v, hv⟩ := hvalid _ rfl
          simp only [validateUnsigned, validateSubmitProof, bind_eq_ok, ensure_eq_ok, okOr_eq_ok,
            exists_and_left, exists_const] at hv
          obtain ⟨-, -, inputs, hdec, -, -, -, hnodup, -⟩ := hv
          simpa [Call.nullifiers, hdec] using hnodup
      | signed who c => simp [Extrinsic.origin] at hdispatch
      | root c => simp [Extrinsic.origin] at hdispatch
  | _ => simp [Call.nullifiers]

/-- Under derived nullifiers the commitments are one-time keys. -/
theorem commitment_keyGuard (T : Config A L) (nf : U8Array 32 → U8Array 32) :
    KeyGuard (apply T) (fun _ x => NullifiersDerived nf x) (fun _ x => x.call.consumed)
      (fun s c => s.nullifierUsed (nf c) = true) where
  nodup s x s' hderived h := by
    have hnodup := apply_nullifiers_nodup h
    rw [hderived] at hnodup
    exact hnodup.of_map nf
  fresh s x s' hderived h c hc := by
    have hmem : nf c ∈ x.call.nullifiers := hderived ▸ List.mem_map_of_mem hc
    simp [(apply_marks h).nullifier_fresh _ hmem]
  marked s x s' hderived h c hc := by
    have hmem : nf c ∈ x.call.nullifiers := hderived ▸ List.mem_map_of_mem hc
    rw [(apply_marks h).nullifierUsed, markAll_eq_true]
    exact Or.inr hmem
  kept s x s' c h hused := by
    rw [(apply_marks h).nullifierUsed, markAll_eq_true]
    exact Or.inl hused

/-- In every run in which each spend of a commitment carries the nullifier that
the commitment determines, no commitment is consumed twice. -/
theorem no_double_spend_of_derived (T : Config A L) (nf : U8Array 32 → U8Array 32)
    (s : State L) (xs : List (Extrinsic A T.maxRangeProofSize))
    (hderived : ∀ e ∈ history (apply T) s xs, NullifiersDerived nf e.2) :
    NoDoubleSpend (history (apply T) s xs) (run (apply T) s xs) := by
  intro c _
  exact List.nodup_iff_count_le_one.1 ((commitment_keyGuard T nf).nodup_history s xs hderived) c

/-! A run that spends one note twice: two notes of value ten are deposited, and
the first one is withdrawn under two nullifiers. -/

def respentAccount : U8Array 32 := U8Array.ofNat 32 2

def respentLedger (account : U8Array 32) : ℕ := if account = respentAccount then 20 else 0

def respentNote (r : ℕ) : U8Array 32 := encodePoint 0 10 r

/-- The verifier of the relations looks at the length of a proof only. -/
def zeroOpening : List UInt8 := List.replicate 64 0

def respentDeposit (r : ℕ) : Extrinsic (U8Array 32) vectorConfig.maxRangeProofSize :=
  .signed respentAccount (.depositPublic (respentNote r).toList (depositBytes 10)
    BoundedVec.empty)

def noteWithdrawal (r nullifier : ℕ) :
    Extrinsic (U8Array 32) vectorConfig.maxRangeProofSize :=
  .unsigned (.withdrawPrivate (respentNote r) (U8Array.ofNat 32 nullifier)
    zeroOpening respentAccount.toList 10)

/-- Both notes are deposited, the first one is withdrawn under the nullifier seven,
and the note `r` under the nullifier eight. -/
def noteRun (r : ℕ) : List (Extrinsic (U8Array 32) vectorConfig.maxRangeProofSize) :=
  [respentDeposit 5, respentDeposit 6, noteWithdrawal 5 7, noteWithdrawal r 8]

def respentRun : List (Extrinsic (U8Array 32) vectorConfig.maxRangeProofSize) := noteRun 5

theorem respentNote_opens {r : ℕ} (hr : r < 256 ^ 12) :
    OpensTo vectorPrimitives (respentNote r) (Scalar.ofU64 10) := by
  refine ⟨_, congrArg some (decodePoint_encodePoint (by norm_num) (by norm_num) hr),
    (r : Scalar), ?_⟩
  simp [Scalar.ofU64]

/-- A withdrawal of an indexed note under a fresh nullifier, covered by the
pool. -/
theorem noteWithdrawal_ok {s : State (U8Array 32 → ℕ)} {r n : ℕ} (hr : r < 256 ^ 12)
    (hindex : (s.commitmentIndex (respentNote r)).isSome)
    (hfresh : s.nullifierUsed (U8Array.ofNat 32 n) = false)
    (hbal : 10 ≤ s.ledger vectorConfig.poolAccount) :
    ∃ s', apply vectorConfig s (noteWithdrawal r n) = .ok s' ∧
      s'.ledger = moveBalance s.ledger vectorConfig.poolAccount respentAccount 10 ∧
      s'.nullifierUsed = insertAt s.nullifierUsed (U8Array.ofNat 32 n) true ∧
      s'.commitmentIndex = s.commitmentIndex := by
  have hlen : zeroOpening.length = 64 := List.length_replicate
  have hopen := respentNote_opens hr
  have hdest : vectorConfig.decodeAccount respentAccount.toList = some respentAccount := by
    have htake : respentAccount.toList.take 32 = respentAccount.toList :=
      List.take_of_length_le (by simp)
    exact copyFromSlice_eq_some.2 htake
  have hvalid : ∃ v, validateUnsigned vectorConfig s (noteWithdrawal r n).call = .ok v := by
    simp [noteWithdrawal, Extrinsic.call, validateUnsigned, validateWithdrawPrivate, hfresh,
      hindex, hlen, hopen]
  refine ⟨_, apply_eq_ok.2 ⟨?_, withdrawPrivate_eq_ok.2 ⟨rfl, hindex, hfresh,
    (relationVerifier_verifyOpeningKnowledge _).2 ⟨hlen, hopen⟩, by simp, _, hdest, _,
    balances_transfer_of_le hbal _ _, rfl⟩⟩, rfl, rfl, rfl⟩
  rintro c ⟨⟩
  exact hvalid

theorem respentDeposit_ok {s : State (U8Array 32 → ℕ)} {r : ℕ} (hr : r < 256 ^ 12)
    (hnew : s.commitmentIndex (respentNote r) = none) (hbal : 10 ≤ s.ledger respentAccount)
    (hroom : s.leaves.val.length < 1048576) :
    ∃ s', apply vectorConfig s (respentDeposit r) = .ok s' ∧
      s'.ledger = moveBalance s.ledger respentAccount vectorConfig.poolAccount 10 ∧
      s'.nullifierUsed = s.nullifierUsed ∧
      s'.leaves.val.length = s.leaves.val.length + 1 ∧
      s'.commitmentIndex = insertAt s.commitmentIndex (respentNote r)
        (some (UInt32.ofNat s.leaves.val.length)) := by
  obtain ⟨s', hs', hrest⟩ := @vector_depositPublic_ok s respentAccount 10 r 10 (by norm_num) hr
    hnew hbal hroom
  exact ⟨s', apply_eq_ok.2 ⟨by simp [respentDeposit], hs'⟩, hrest⟩

theorem respentAccount_ne_pool : respentAccount ≠ vectorConfig.poolAccount := by
  simp only [vectorConfig, respentAccount]
  decide

theorem respentDeposits_succeed : ∃ s₁ s₂ : State (U8Array 32 → ℕ),
    apply vectorConfig (genesis respentLedger) (respentDeposit 5) = .ok s₁ ∧
      apply vectorConfig s₁ (respentDeposit 6) = .ok s₂ ∧
      (∀ r ∈ [5, 6], (s₂.commitmentIndex (respentNote r)).isSome) ∧
      (∀ n, s₂.nullifierUsed n = false) ∧ s₂.ledger vectorConfig.poolAccount = 20 := by
  have hpool := respentAccount_ne_pool
  have hnotes : respentNote 6 ≠ respentNote 5 := by decide
  obtain ⟨s₁, h₁, hl₁, hn₁, hlen₁, hi₁⟩ := respentDeposit_ok (s := genesis respentLedger) (r := 5)
    (by norm_num) rfl (by simp [genesis, respentLedger]) (by decide)
  obtain ⟨s₂, h₂, hl₂, hn₂, -, hi₂⟩ := respentDeposit_ok (s := s₁) (r := 6) (by norm_num)
    (by rw [hi₁]; simp [hnotes, genesis])
    (by rw [hl₁, moveBalance_source hpool]; simp [genesis, respentLedger])
    (by rw [hlen₁]; decide)
  refine ⟨s₁, s₂, h₁, h₂, ?_, fun n => ?_, ?_⟩
  · simp [hi₂, hi₁, hnotes.symm]
  · rw [hn₂, hn₁]
    rfl
  · rw [hl₂, moveBalance_dest hpool, hl₁, moveBalance_dest hpool]
    simp [genesis, respentLedger, hpool.symm]

/-- All four calls of the run succeed, and both notes are in the index at the end. -/
theorem noteRun_succeeds {r : ℕ} (hr : r ∈ [5, 6]) : ∃ s₁ s₂ s₃ : State (U8Array 32 → ℕ),
    history (apply vectorConfig) (genesis respentLedger) (noteRun r) =
        [(genesis respentLedger, respentDeposit 5), (s₁, respentDeposit 6),
          (s₂, noteWithdrawal 5 7), (s₃, noteWithdrawal r 8)] ∧
      ∀ n ∈ [5, 6], ((run (apply vectorConfig) (genesis respentLedger)
        (noteRun r)).commitmentIndex (respentNote n)).isSome := by
  have hnullifiers : U8Array.ofNat 32 8 ≠ U8Array.ofNat 32 7 := by decide
  have hlt : r < 256 ^ 12 := by
    obtain rfl | rfl := List.mem_pair.1 hr <;> norm_num
  obtain ⟨s₁, s₂, h₁, h₂, hindex, hfresh, hpool₂⟩ := respentDeposits_succeed
  obtain ⟨s₃, h₃, hl₃, hn₃, hi₃⟩ := noteWithdrawal_ok (s := s₂) (r := 5) (n := 7) (by norm_num)
    (hindex 5 (by simp)) (hfresh _) (by rw [hpool₂]; norm_num)
  have hpool₃ : s₃.ledger vectorConfig.poolAccount = 10 := by
    rw [hl₃, moveBalance_source respentAccount_ne_pool.symm, hpool₂]
  obtain ⟨s₄, h₄, -, -, hi₄⟩ := noteWithdrawal_ok (s := s₃) (n := 8) hlt
    (by rw [hi₃]; exact hindex r hr) (by simp [hn₃, hnullifiers, hfresh]) (by rw [hpool₃])
  refine ⟨s₁, s₂, s₃, ?_, ?_⟩
  · rw [noteRun, history_cons_ok h₁, history_cons_ok h₂, history_cons_ok h₃,
      history_cons_ok h₄, history_nil]
  · rw [noteRun, run_cons, next_ok h₁, run_cons, next_ok h₂, run_cons, next_ok h₃, run_cons,
      next_ok h₄, run_nil, hi₄, hi₃]
    exact hindex

/-- A note withdrawn under two nullifiers is consumed twice. -/
theorem note_spent_twice :
    ¬ NoDoubleSpend (history (apply vectorConfig) (genesis respentLedger) respentRun)
      (run (apply vectorConfig) (genesis respentLedger) respentRun) := by
  obtain ⟨s₁, s₂, s₃, hhist, hindex⟩ := noteRun_succeeds (r := 5) (by simp)
  intro h
  have hcount := h (respentNote 5) (hindex 5 (by simp))
  rw [respentRun, hhist] at hcount
  simp [respentDeposit, noteWithdrawal, Extrinsic.call, Call.consumed] at hcount

/-- The nullifier seven for the first note, eight for the others. -/
def noteNullifier (c : U8Array 32) : U8Array 32 :=
  if c = respentNote 5 then U8Array.ofNat 32 7 else U8Array.ofNat 32 8

/-- Each note is withdrawn under its own nullifier. -/
theorem noteRun_not_respent :
    (history (apply vectorConfig) (genesis respentLedger) (noteRun 6)).length = 4 ∧
      NoDoubleSpend (history (apply vectorConfig) (genesis respentLedger) (noteRun 6))
        (run (apply vectorConfig) (genesis respentLedger) (noteRun 6)) := by
  have hnotes : respentNote 6 ≠ respentNote 5 := by decide
  obtain ⟨s₁, s₂, s₃, hhist, -⟩ := noteRun_succeeds (r := 6) (by simp)
  refine ⟨by rw [hhist]; rfl, no_double_spend_of_derived vectorConfig noteNullifier
    (genesis respentLedger) (noteRun 6) fun e he => ?_⟩
  have hmem := mem_of_mem_history he
  simp only [noteRun, List.mem_cons, List.not_mem_nil, or_false] at hmem
  rcases hmem with h | h | h | h <;> rw [h]
  · rfl
  · rfl
  · simp [NullifiersDerived, noteWithdrawal, Extrinsic.call, Call.nullifiers, Call.consumed,
      noteNullifier]
  · simp [NullifiersDerived, noteWithdrawal, Extrinsic.call, Call.nullifiers, Call.consumed,
      noteNullifier, hnotes]

end NullaRelay.ScanProof
