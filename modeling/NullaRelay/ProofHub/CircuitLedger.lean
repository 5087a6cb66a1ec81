import NullaRelay.ProofHub.DepositAir
import NullaRelay.ProofHub.Ledger
import NullaRelay.ProofHub.Nullifiers

/-!
# From the circuits to the ledger

The ledger of the v2 lane rests on an extractor for accepted proofs. Here the extractor
is read off the traces of the two circuits: a STARK proof system hands out a satisfying
trace for every proof that it accepts, and the cells of the trace open the note, its
place in the tree and the change. The bytes of a nullifier are not among the cells, so
this extractor speaks about the runs whose nullifiers are canonical.
-/

namespace NullaRelay.ProofHub

open NullaRelay.Frame V2 Transition Air

variable {A L : Type} {s s' : State L} {blake3 : List UInt8 → U8Array 32}

/-! The traces have rows and columns. -/

local instance neZeroSpendRows : NeZero 8192 := ⟨by decide⟩

local instance neZeroSpendColumns : NeZero 14 := ⟨by decide⟩

local instance neZeroDepositRows : NeZero 256 := ⟨by decide⟩

local instance neZeroDepositColumns : NeZero 6 := ⟨by decide⟩

/-- The 64-bit integer that a field element stands for. -/
def toU64 (x : BaseElement) : UInt64 := UInt64.ofNat x.asInt

@[simp] theorem toU64_ofU64 (v : UInt64) : toU64 (ofU64 v) = v := by
  have hlt : v.toNat < baseModulus := by
    rw [baseModulus_eq]
    exact v.toNat_lt.trans (by norm_num)
  rw [toU64, ofU64, BaseElement.asInt_new_of_lt hlt, UInt64.ofNat_toNat]

/-- The public inputs that a spend hands to the circuit. -/
def SpendStatement.publicInputs (st : SpendStatement) : SpendAir.SpendPI where
  root := st.root
  nullifier := st.nullifier
  pkd := st.pkd
  priceOrAmount := st.priceOrAmount
  changeLeaf := st.changeLeaf
  changePkd := st.changePkd
  mode := if st.purchase then 1 else 0

namespace SpendAir

variable {pi : SpendPI} {t : Trace BaseElement 8192 14}

/-- The cells of a trace that open the spent note and the change. -/
def openingOf (pi : SpendPI) (t : Trace BaseElement 8192 14) : Opening where
  note := { value := toU64 (t.row 0 12), blinding := blindingOf t, pkd := unpack pi.pkd }
  index := Merkle.ofBits (bitOf t) 20
  siblings := ⟨(List.range 20).map (siblingOf t), by simp⟩
  change :=
    { value := toU64 (t.row 0 13)
      blinding := (t.row 5505 9, t.row 5505 10)
      pkd := unpack pi.changePkd }

theorem bitOf_lt (t : Trace BaseElement 8192 14) (d : ℕ) : bitOf t d < 2 := by
  unfold bitOf
  split_ifs <;> norm_num

/-- The opening of a satisfying trace is one of the statement. -/
theorem openingOf_opens {st : SpendStatement}
    (h : (spendAir blake3 st.publicInputs).Satisfies t)
    (hcanon : packPair (unpack st.nullifier) = st.nullifier) :
    (openingOf st.publicInputs t).Opens (poseidonHashes blake3) st := by
  have hrun := runs_of_satisfies h
  obtain ⟨hacc, hpow, hnf, hroot, hchange⟩ := asserted h
  obtain ⟨v, cv, hv, hcv⟩ := values_eq hrun hacc hpow
  obtain ⟨hspend, hwithdraw⟩ := value_balance hrun hv hcv
  have hpath := Merkle.pathRoot_ofBits (nodeOf t) (siblingOf t) (n := 20)
    (fun d _ => bitOf_lt t d) fun d hd => level_eq hrun hd
  have hvalue : toU64 (t.row 0 12) = v := by rw [hv, toU64_ofU64]
  have hchangeValue : toU64 (t.row 0 13) = cv := by rw [hcv, toU64_ofU64]
  have hnote : Note.hash (poseidonHashes blake3) (openingOf st.publicInputs t).note =
      nodeOf t 0 := by
    simp only [Note.hash, openingOf, hvalue]
    exact (note_eq hrun hv).symm
  constructor
  · exact Merkle.ofBits_lt fun d _ => bitOf_lt t d
  · have hblinding := (nullifier_eq hrun).trans hnf
    exact hcanon.symm.trans (congrArg packPair hblinding.symm)
  · rw [hnote]
    exact hpath.symm.trans ((root_row hrun).trans hroot)
  · intro _
    simp only [Note.hash, openingOf, hchangeValue]
    exact hchange.symm.trans (change_eq hrun hcv).symm
  · simp only [openingOf, hvalue, hchangeValue]
    cases hmode : st.purchase with
    | true =>
        have hmode : st.publicInputs.mode = 1 := by simp [SpendStatement.publicInputs, hmode]
        rw [if_pos rfl, hspend hmode]
        exact add_comm _ _
    | false =>
        have hmode : st.publicInputs.mode = 0 := by simp [SpendStatement.publicInputs, hmode]
        rw [(hwithdraw hmode).1]
        rfl

end SpendAir

namespace DepositAir

variable {t : Trace BaseElement 256 6}

/-- The cells of a trace that open the note of a deposit. -/
def noteOf (amount : UInt64) (t : Trace BaseElement 256 6) : Note where
  value := amount
  blinding := (t.row 0 2, t.row 0 3)
  pkd := (t.row 0 4, t.row 0 5)

theorem hash_noteOf {pi : DepositPI} (h : (depositV2Air blake3 pi).Satisfies t) :
    unpack pi.leaf = (noteOf pi.amount t).hash (poseidonHashes blake3) := by
  obtain ⟨hrun, hiv, hamount, hleaf⟩ := satisfies_iff.1 h
  rw [← hleaf, hrun.note_eq hiv hamount]
  rfl

end DepositAir

/-- What the STARK proof system gives for the proofs that it accepts: traces that
satisfy the circuits. -/
structure StarkExtractor (P : Verifier.Primitives) where
  depositTrace : List UInt8 → DepositAir.DepositPI → Trace BaseElement 256 6
  spendTrace : List UInt8 → SpendAir.SpendPI → Trace BaseElement 8192 14
  deposit_satisfies : ∀ proof (pi : DepositAir.DepositPI),
    P.verifyDepositV2Air proof pi.amount pi.leaf = true →
      (DepositAir.depositV2Air P.blake3 pi).Satisfies (depositTrace proof pi)
  spend_satisfies : ∀ proof pi, P.verifySpendAir proof pi = true →
    (SpendAir.spendAir P.blake3 pi).Satisfies (spendTrace proof pi)

/-- The verifier that also asks for canonical nullifiers. -/
def ProofVerify.canonical (V : ProofVerify) : ProofVerify :=
  { V with
    verifySpendV2 := fun proof root nullifier pkd priceOrAmount changeLeaf changePkd purchase =>
      packPair (unpack nullifier) = nullifier ∧
        V.verifySpendV2 proof root nullifier pkd priceOrAmount changeLeaf changePkd purchase }

/-- The extractor of the ledger, read off the traces. -/
def StarkExtractor.extractor {P : Verifier.Primitives} (W : StarkExtractor P) :
    Extractor (poseidonHashes P.blake3) (runtimeProofVerifier P).canonical where
  deposit proof amount leaf := DepositAir.noteOf amount (W.depositTrace proof ⟨amount, leaf⟩)
  spend st := SpendAir.openingOf st.publicInputs (W.spendTrace st.proof st.publicInputs)
  deposit_opens proof amount leaf h :=
    ⟨DepositAir.hash_noteOf (W.deposit_satisfies proof ⟨amount, leaf⟩ h), rfl⟩
  spend_opens st h := by
    obtain ⟨hcanon, hproof⟩ := of_decide_eq_true h
    exact SpendAir.openingOf_opens (W.spend_satisfies st.proof st.publicInputs hproof) hcanon

namespace Config

/-- The configuration of the runtime: the trait and the hash are those of the verifier
crate. -/
def wired (T : Config A L) (P : Verifier.Primitives) : Config A L :=
  { T with proofVerifier := runtimeProofVerifier P, blake3 := P.blake3 }

def canonical (T : Config A L) : Config A L :=
  { T with proofVerifier := T.proofVerifier.canonical }

end Config

variable {T : Config A L}

theorem spendable_canonical {auth pi spendProof : List UInt8} {root nf : U8Array 32} {x : UInt64}
    {cl cp : U8Array 32} {withdraw : Bool} :
    Spendable T.canonical s auth pi spendProof root nf x cl cp withdraw ↔
      Spendable T s auth pi spendProof root nf x cl cp withdraw ∧
        packPair (unpack nf) = nf := by
  constructor
  · intro h
    obtain ⟨hcanon, hproof⟩ := of_decide_eq_true h.proved
    exact ⟨⟨h.fresh, h.anchored, h.signed, h.length, hproof⟩, hcanon⟩
  · rintro ⟨h, hcanon⟩
    exact ⟨h.fresh, h.anchored, h.signed, h.length, decide_eq_true ⟨hcanon, h.proved⟩⟩

theorem canonicalNullifier_iff {call : Call} {n : U8Array 32} (h : call.v2Nullifier = some n) :
    CanonicalNullifier call ↔ packPair (unpack n) = n := by
  simp [CanonicalNullifier, h]

/-- Asking for canonical nullifiers refuses the calls that carry another one. -/
theorem apply_canonical (s : State L) (x : Extrinsic A) (s' : State L) :
    apply T.canonical s x = .ok s' ↔ apply T s x = .ok s' ∧ CanonicalNullifier x.2 := by
  obtain ⟨o, call⟩ := x
  have hother (h : call.v2Nullifier = none)
      (hsame : apply T.canonical s (o, call) = apply T s (o, call)) :
      apply T.canonical s (o, call) = .ok s' ↔
        apply T s (o, call) = .ok s' ∧ CanonicalNullifier call := by
    have hcanon : CanonicalNullifier call := by simp [CanonicalNullifier, h]
    rw [hsame, and_iff_left hcanon]
  cases call with
  | purchaseRwaV2 auth pi p =>
      have hcanon {i : SpendPublicV2} (hdec : SpendPublicV2.decode pi = some i) :=
        @canonicalNullifier_iff (.purchaseRwaV2 auth pi p) i.nullifier
          (by rw [Call.v2Nullifier, hdec, Option.map_some])
      simp only [apply, dispatch, purchaseRwaV2_eq_ok, spendable_canonical]
      constructor
      · rintro ⟨ho, i, hdec, hprice, ⟨hspend, hnf⟩, hrest⟩
        exact ⟨⟨ho, i, hdec, hprice, hspend, hrest⟩, (hcanon hdec).2 hnf⟩
      · rintro ⟨⟨ho, i, hdec, hprice, hspend, hrest⟩, hnf⟩
        exact ⟨ho, i, hdec, hprice, ⟨hspend, (hcanon hdec).1 hnf⟩, hrest⟩
  | purchaseAccessV2 auth pi p =>
      have hcanon {i : SpendPublicV2} (hdec : SpendPublicV2.decode pi = some i) :=
        @canonicalNullifier_iff (.purchaseAccessV2 auth pi p) i.nullifier
          (by rw [Call.v2Nullifier, hdec, Option.map_some])
      simp only [apply, dispatch, purchaseAccessV2_eq_ok, spendable_canonical]
      constructor
      · rintro ⟨ho, i, cfg, hdec, hcfg, hprice, ⟨hspend, hnf⟩, hrest⟩
        exact ⟨⟨ho, i, cfg, hdec, hcfg, hprice, hspend, hrest⟩, (hcanon hdec).2 hnf⟩
      · rintro ⟨⟨ho, i, cfg, hdec, hcfg, hprice, hspend, hrest⟩, hnf⟩
        exact ⟨ho, i, cfg, hdec, hcfg, hprice, ⟨hspend, (hcanon hdec).1 hnf⟩, hrest⟩
  | withdrawV2 auth pi p =>
      have hcanon {i : WithdrawPublicV2} (hdec : WithdrawPublicV2.decode pi = some i) :=
        @canonicalNullifier_iff (.withdrawV2 auth pi p) i.nullifier
          (by rw [Call.v2Nullifier, hdec, Option.map_some])
      simp only [apply, dispatch, withdrawV2_eq_ok]
      constructor
      · rintro ⟨ho, i, hdec, hspend, hrest⟩
        obtain ⟨hspend, hnf⟩ := spendable_canonical.1 hspend
        exact ⟨⟨ho, i, hdec, hspend, hrest⟩, (hcanon hdec).2 hnf⟩
      · rintro ⟨⟨ho, i, hdec, hspend, hrest⟩, hnf⟩
        exact ⟨ho, i, hdec, spendable_canonical.2 ⟨hspend, (hcanon hdec).1 hnf⟩, hrest⟩
  | _ => exact hother rfl rfl

/-- What happens on the chain, as far as the pallet sees it: a call of the pallet, or
something else that changes the balances. -/
inductive ChainStep (A L : Type)
  | call (x : Extrinsic A)
  | elsewhere (ledger : L)

variable (T) in
def chainStep (s : State L) : ChainStep A L → DispatchResult (State L)
  | .call x => apply T s x
  | .elsewhere ledger => .ok { s with ledger }

/-- The accepted calls of a history. -/
def calls (past : List (State L × ChainStep A L)) : List (State L × Extrinsic A) :=
  past.filterMap fun e =>
    match e.2 with
    | .call x => some (e.1, x)
    | .elsewhere _ => none

/-- The calls that a run from genesis accepts, each with the state before it. -/
abbrev accepted (T : Config A L) (ledger : L) (steps : List (ChainStep A L)) :
    List (State L × Extrinsic A) :=
  calls (history (chainStep T) (genesis ledger) steps)

/-- The state that a run from genesis reaches. -/
abbrev reached (T : Config A L) (ledger : L) (steps : List (ChainStep A L)) : State L :=
  run (chainStep T) (genesis ledger) steps

theorem calls_call (past : List (State L × ChainStep A L)) (s : State L) (x : Extrinsic A) :
    calls (past ++ [(s, .call x)]) = calls past ++ [(s, x)] := by
  simp [calls]

theorem calls_elsewhere (past : List (State L × ChainStep A L)) (s : State L) (ledger : L) :
    calls (past ++ [(s, .elsewhere ledger)]) = calls past := by
  simp [calls]

theorem mem_calls {past : List (State L × ChainStep A L)} {e : State L × Extrinsic A} :
    e ∈ calls past ↔ (e.1, .call e.2) ∈ past := by
  simp only [calls, List.mem_filterMap]
  constructor
  · rintro ⟨⟨s, step⟩, hmem, heq⟩
    cases step with
    | call x =>
        obtain rfl := Option.some.inj heq
        exact hmem
    | elsewhere ledger => cases heq
  · intro hmem
    exact ⟨_, hmem, rfl⟩

/-- Asking for canonical nullifiers changes nothing where all of them are. -/
theorem chain_canonical (ledger : L) (steps : List (ChainStep A L))
    (hcanon : ∀ e ∈ accepted T ledger steps, CanonicalNullifier e.2.2) :
    accepted T.canonical ledger steps = accepted T ledger steps ∧
      reached T.canonical ledger steps = reached T ledger steps := by
  have hsame : history (chainStep T.canonical) (genesis ledger) steps =
        history (chainStep T) (genesis ledger) steps ∧
      run (chainStep T.canonical) (genesis ledger) steps =
        run (chainStep T) (genesis ledger) steps := by
    refine history_of_stricter
      (Q := fun _ step => ∀ x, step = .call x → CanonicalNullifier x.2) ?_ (genesis ledger) steps ?_
    · intro s step s'
      cases step with
      | call x => simpa [chainStep] using apply_canonical s x s'
      | elsewhere ledger => simp [chainStep]
    · intro e he x hx
      exact hcanon (e.1, x) (mem_calls.2 (by rwa [← hx]))
  exact ⟨congrArg calls hsame.1, hsame.2⟩

/-- Every run of the chain keeps the tree of the leaves added. -/
theorem chain_keepsTree {hash2 : U8Array 32 → U8Array 32 → U8Array 32}
    (hins : T.proofVerifier.v2InsertLeaf = v2InsertLeaf hash2) (ledger : L)
    (steps : List (ChainStep A L)) :
    KeepsTree hash2 (reached T ledger steps) (newLeaves (accepted T ledger steps)) := by
  have hrun := @history_invariant _ _ _ (chainStep T) (fun _ _ => True)
    (fun s past => KeepsTree hash2 s (newLeaves (calls past)))
    (fun s step s' past h _ hs => by
      cases step with
      | call x =>
          rw [calls_call, newLeaves_append]
          exact h.step hins (effect_of_apply hs)
      | elsewhere ledger =>
          obtain rfl := Except.ok.inj hs
          rw [calls_elsewhere]
          exact ⟨h.holds, h.indexed, h.current, h.recent⟩)
    (genesis ledger) steps [] (keepsTree_genesis ledger) fun _ _ => trivial
  exact hrun

section Balanced

variable {H : Hashes} {V : ProofVerify}

/-- Money that moves elsewhere leaves the notes alone. -/
theorem Balanced.elsewhere {X : Extractor H V} {leaves : List (U8Array 32)} {steps : List V2Step}
    (h : Balanced X s leaves steps) (ledger : L) : Balanced X { s with ledger } leaves steps where
  tree := ⟨h.tree.holds, h.tree.indexed, h.tree.current, h.tree.recent⟩
  opened := h.opened
  placed := h.placed
  marked := h.marked
  nodup := h.nodup
  identity := h.identity

/-- Every run of the chain keeps the invariant of the ledger. -/
theorem chain_balanced {X : Extractor H T.proofVerifier}
    (hins : T.proofVerifier.v2InsertLeaf = v2InsertLeaf (merkleHash2 H)) (ledger : L)
    (steps : List (ChainStep A L)) (hcoll : X.CollisionFree (accepted T ledger steps)) :
    Balanced X (reached T ledger steps) (newLeaves (accepted T ledger steps))
      (v2Steps T (accepted T ledger steps)) := by
  have hrun := @history_invariant _ _ _ (chainStep T) (fun _ _ => True)
    (fun s past => X.CollisionFree (calls past) →
      Balanced X s (newLeaves (calls past)) (v2Steps T (calls past)))
    (fun s step s' past ih _ hs hcoll => by
      cases step with
      | call x =>
          rw [calls_call] at hcoll ⊢
          exact balanced_step hins hs hcoll (ih hcoll.of_append)
      | elsewhere ledger =>
          obtain rfl := Except.ok.inj hs
          rw [calls_elsewhere] at hcoll ⊢
          exact (ih hcoll).elsewhere ledger)
    (genesis ledger) steps [] (fun _ => balanced_genesis X ledger) fun _ _ => trivial
  exact hrun hcoll

theorem Balanced.accounted {X : Extractor H T.proofVerifier}
    {past : List (State L × Extrinsic A)}
    (h : Balanced X s (newLeaves past) (v2Steps T past)) : Accounted X past where
  opened := h.opened
  placed := h.placed
  once := h.nodup
  identity := by
    have hidentity := h.identity
    rw [sum_v2Steps, sum_v2Steps] at hidentity
    simp only [← Call.deposited_eq, ← Call.paid_eq, total_add] at hidentity
    exact hidentity

end Balanced

end NullaRelay.ProofHub
