import NullaRelay.ScanProof.BalanceProofs
import NullaRelay.ScanProof.CoinSolvency
import NullaRelay.ScanProof.Covered
import NullaRelay.ScanProof.NoteLane
import NullaRelay.ScanProof.NoteStorage

/-!
# ScanProof is solvent

What nobody checks in the note lane: that a deposit pays what its note is worth, that
the change of a purchase is in range, that the nullifier is that of the note, and that a
note of a transfer is in the tree. Where all of it holds, a call leaves notes worth what
it spends and pays in, and the pool covers the unspent notes next to the live coins.
-/

namespace NullaRelay.ScanProof

open NullaRelay.Frame Transition Verifier OneOfMany Unspent

variable {V : Type} [AddCommGroup V] [Module Scalar V] {P : Primitives V}
  {A L : Type} {T : Config A L} {s s' : State L} {notes : List (U8Array 32)}
  {nf : U8Array 32 → U8Array 32}

variable (P) in
/-- What the proofs of the note lane show. -/
structure NoteProofsSound (verifier : ProofVerify) : Prop where
  notes : NotesSound P verifier
  balance : ∀ proof pi inputs, verifier.verify proof pi = true →
    ProofPublicInputs.decode pi = some inputs → BalanceRelation P inputs

/-- The price of an asset that is bought with a note; it stays in the pool. -/
def Call.notePaidForRwa {R : ℕ} (s : State L) : Call R → ℕ
  | .purchaseRwa _ _ _ id _ _ _ => (s.rwaPrices id).toNat
  | _ => 0

variable (P nf s) in
/-- What nothing checks of a call of the note lane. -/
structure FairNotes (call : Call T.maxRangeProofSize) : Prop where
  derived : call.nullifiers = call.consumed.map nf
  indexed : ∀ c ∈ call.consumed, Indexed s c
  change : ∀ p ∈ call.noteSpend s, ∀ cc ∈ p.change, InRange P cc
  deposit : ∀ commitment rp hints, call = .depositPublic commitment rp hints →
    ∀ c, copyFromSlice 32 commitment = some c → OpensTo P c (call.noteDeposited T : Scalar)

variable (nf) in
/-- The nullifier of the note is not marked. -/
def LiveNote (used : U8Array 32 → Bool) (c : U8Array 32) : Prop := used (nf c) = false

instance (used : U8Array 32 → Bool) : DecidablePred (LiveNote nf used) := fun c =>
  inferInstanceAs (Decidable (used (nf c) = false))

variable (P nf) in
/-- The value of the unspent notes. -/
noncomputable def unspentNotes (used : U8Array 32 → Bool) (notes : List (U8Array 32)) : ℕ :=
  worth (committedValue P) (LiveNote nf used) notes

variable (P s notes) in
/-- The tree holds the notes, and all of them are in range. -/
structure NoteBooks : Prop where
  indexed : ∀ c, Indexed s c ↔ c ∈ notes
  inRange : NotesInRange P s
  length : notes.length = s.leaves.val.length

theorem noteBooks_genesis (ledger : L) : NoteBooks P (genesis ledger) [] where
  indexed c := by simp [Indexed, genesis]
  inRange c hc := by simp [Indexed, genesis] at hc
  length := rfl

/-- A note is worth what it opens to. -/
theorem OpensTo.holdsValue {c : U8Array 32} {v : ℕ} (h : OpensTo P c v) : HoldsValue P c v := by
  obtain ⟨p, hp, r, rfl⟩ := h
  refine ⟨0, r, hp.trans (congrArg some ?_)⟩
  rw [coinPoint, zero_smul, zero_add]

theorem independent_pair
    (hind : LinearIndependent Scalar ![generatorG1 P, P.basepoint, generatorH P]) :
    LinearIndependent Scalar ![P.basepoint, generatorH P] := by
  rw [LinearIndependent.pair_iff]
  intro a b hab
  have hzero : (0 : Scalar) • generatorG1 P + a • P.basepoint + b • generatorH P = 0 := by
    rw [zero_smul, zero_add, hab]
  exact (Extraction.triple_eq_zero hind hzero).2

section Values

variable (hind : LinearIndependent Scalar ![generatorG1 P, P.basepoint, generatorH P])
include hind

theorem OpensTo.committedValue_eq {c : U8Array 32} {v : ℕ} (h : OpensTo P c v) (hv : v < 2 ^ 64) :
    committedValue P c = v :=
  h.holdsValue.committedValue_eq hind (hv.trans (by norm_num [groupOrder]))

/-- Commitments in range have openings with their values. -/
theorem exists_openings (cs : List (U8Array 32)) (h : ∀ c ∈ cs, InRange P c) :
    ∃ os : List Verifier.Opening, OpenedBy P cs os ∧
      (∀ o ∈ os, 0 ≤ o.value ∧ o.value < 2 ^ 64) ∧
      valueSum os = ((cs.map (committedValue P)).sum : ℕ) := by
  induction cs with
  | nil => exact ⟨[], .nil, by simp, rfl⟩
  | cons c cs ih =>
      rw [List.forall_mem_cons] at h
      obtain ⟨os, hos, hrange, hsum⟩ := ih h.2
      obtain ⟨v, hv, hopen⟩ := h.1
      have hvalue := hopen.committedValue_eq hind hv
      obtain ⟨p, hp, r, rfl⟩ := hopen
      refine ⟨⟨v, r⟩ :: os, .cons ?_ hos, ?_, ?_⟩
      · rw [hp, Verifier.Opening.point, Int.cast_natCast]
      · rw [List.forall_mem_cons]
        have hlt : (v : ℤ) < 2 ^ 64 := by exact_mod_cast hv
        exact ⟨⟨Int.natCast_nonneg v, hlt⟩, hrange⟩
      · rw [valueSum, List.map_cons, List.sum_cons, ← valueSum, hsum, List.map_cons, List.sum_cons,
          hvalue, Nat.cast_add]

/-- A balanced transfer of notes in range leaves what it takes. -/
theorem sum_eq_of_balance {i : ProofPublicInputs} (h : BalanceRelation P i)
    (hins : ∀ c ∈ i.inputCommitments, InRange P c) (houts : ∀ c ∈ i.newCommitments, InRange P c)
    (hlen : i.inputCommitments.length < 2 ^ 180) (hlen' : i.newCommitments.length < 2 ^ 180) :
    (i.inputCommitments.map (committedValue P)).sum =
      (i.newCommitments.map (committedValue P)).sum := by
  obtain ⟨agg, hagg, w, hw⟩ := balanceRelation_iff.1 h
  obtain ⟨ins, hopened, hrange, hsum⟩ := exists_openings hind _ hins
  obtain ⟨outs, hopened', hrange', hsum'⟩ := exists_openings hind _ houts
  have hmod := valueSum_modEq (independent_pair hind) hopened hopened' hagg hw
  rw [hopened.length_eq] at hlen
  rw [hopened'.length_eq] at hlen'
  have heq := valueSum_eq hrange hrange' hlen hlen' hmod
  rw [hsum, hsum'] at heq
  exact_mod_cast heq

end Values

section Books

variable (hind : LinearIndependent Scalar ![generatorG1 P, P.basepoint, generatorH P])
  (hcodec : ∀ p q, P.decompress (P.compress p) = some q → q = p)
  (hsound : NoteProofsSound P T.proofVerifier)

/-- The notes of the tree fit into it. -/
theorem NoteBooks.length_le (h : NoteBooks P s notes) : notes.length ≤ 1048576 := by
  rw [h.length]
  exact s.leaves.property

theorem NoteBooks.step (h : NoteBooks P s notes) (hsound : NoteProofsSound P T.proofVerifier)
    {x : Extrinsic A T.maxRangeProofSize} (hfair : FairNotes P s nf x.call)
    (hok : apply T s x = .ok s') : NoteBooks P s' (notes ++ x.call.inserted) where
  indexed c := by
    rw [apply_indexed hok, h.indexed, List.mem_append]
  inRange := notesInRange_step hsound.notes h.inRange hfair.change hok
  length := by
    have heff := (apply_effect hok).notes
    rw [Call.inserted_eq, List.length_append, h.length]
    cases hnew : x.call.newNotes with
    | none =>
        rw [hnew] at heff
        have hleaves : s'.leaves = s.leaves := congrArg NoteStore.leaves heff
        simp [hleaves]
    | some cs =>
        rw [hnew] at heff
        have hleaves : s'.leaves.val = s.leaves.val ++ cs.map (leafHash T) := heff.leaves
        simp [hleaves]

include hind hcodec hsound

/-- The note of a purchase covers the price and the change. -/
theorem NoteBooks.purchase (h : NoteBooks P s notes) {x : Extrinsic A T.maxRangeProofSize}
    (hfair : FairNotes P s nf x.call) (hok : apply T s x = .ok s') {p : NoteSpend}
    (hp : p ∈ x.call.noteSpend s) :
    (p.change.toList.map (committedValue P)).sum + p.price.toNat ≤ committedValue P p.note := by
  obtain ⟨v, hv, hopen, hle, hchange⟩ := covered_step (independent_pair hind) hcodec hsound.notes
    h.inRange hfair.change hok p hp
  rw [hopen.committedValue_eq hind hv]
  cases hcc : p.change with
  | none => simpa using hle
  | some cc =>
      obtain ⟨w, hw, hcopen, rfl⟩ := hchange cc hcc
      rw [Option.toList_some, List.map_singleton, List.sum_singleton,
        hcopen.committedValue_eq hind hw]
      omega

omit hcodec in
/-- A transfer of notes of the tree leaves what it takes. -/
theorem NoteBooks.transfer (h : NoteBooks P s notes) {o : Origin A} {proof pi : List UInt8}
    {rp : BoundedVec UInt8 T.maxRangeProofSize} {hints : BoundedVec UInt8 4096}
    (hok : submitProof T s o proof rp pi hints = .ok s') {i : ProofPublicInputs}
    (hdec : ProofPublicInputs.decode pi = some i) (hnodup : i.inputCommitments.Nodup)
    (hindexed : ∀ c ∈ i.inputCommitments, Indexed s c) :
    (i.inputCommitments.map (committedValue P)).sum =
      (i.newCommitments.map (committedValue P)).sum := by
  obtain ⟨i', leaves, hcheck, hleaves, -⟩ := submitProof_of_ok hok
  obtain rfl := Option.some.inj (hdec.symm.trans hcheck.decoded)
  have hins : i.inputCommitments.length ≤ 1048576 :=
    (List.subperm_of_subset hnodup fun c hc => (h.indexed c).1 (hindexed c hc)).length_le.trans
      h.length_le
  have houts : i.newCommitments.length ≤ 1048576 := by
    have hroom : leaves.val.length ≤ 1048576 := leaves.property
    rw [hleaves, List.length_append, List.length_map] at hroom
    omega
  exact sum_eq_of_balance hind (hsound.balance _ _ _ hcheck.proved hdec)
    (fun c hc => h.inRange c (hindexed c hc))
    (fun c hc => newCommitments_inRange hsound.notes hok hdec hc)
    (hins.trans_lt (by norm_num)) (houts.trans_lt (by norm_num))

/-- A call puts no more value into the tree, and pays out no more, than it spends and pays
in. -/
theorem NoteBooks.balance (h : NoteBooks P s notes) {x : Extrinsic A T.maxRangeProofSize}
    (hfair : FairNotes P s nf x.call) (hok : apply T s x = .ok s') :
    (x.call.inserted.map (committedValue P)).sum + x.call.notePaidForRwa s +
        x.call.notePaidOut s ≤
      (x.call.consumed.map (committedValue P)).sum + x.call.noteDeposited T := by
  have hnodup := apply_nullifiers_nodup hok
  have hbuys := fun p => @NoteBooks.purchase _ _ _ P _ _ T s s' notes nf hind hcodec hsound h x
    hfair hok p
  have hcall := (apply_eq_ok.1 hok).2
  generalize x.call = call at hfair hnodup hbuys hcall
  rw [hfair.derived] at hnodup
  cases call with
  | depositPublic commitment rp hints =>
      obtain ⟨-, -, c, hc, bp, amt, hparse, -⟩ := depositPublic_eq_ok.1 hcall
      have hcopy : copyFromSlice 32 commitment = some c := copyFromSlice_eq_some.2 hc
      have hopens := hfair.deposit commitment rp hints rfl c hcopy
      have hpaid : Call.noteDeposited T (.depositPublic commitment rp hints) = amt.toNat := by
        rw [Call.noteDeposited, hparse]
        rfl
      rw [hpaid] at hopens ⊢
      rw [Call.inserted, hcopy, Option.toList_some, List.map_singleton, List.sum_singleton,
        hopens.committedValue_eq hind amt.toNat_lt]
      simp [Call.notePaidForRwa, Call.notePaidOut, Call.consumed]
  | submitProof proof rp pi hints =>
      obtain ⟨i, leaves, hcheck, -⟩ := submitProof_of_ok hcall
      have hconsumed : Call.consumed (.submitProof proof rp pi hints) = i.inputCommitments := by
        rw [Call.consumed, hcheck.decoded]
        rfl
      have hinserted : Call.inserted (.submitProof proof rp pi hints) = i.newCommitments := by
        rw [Call.inserted, hcheck.decoded]
        rfl
      rw [hconsumed] at hnodup
      have hsum := h.transfer hind hsound hcall hcheck.decoded (hnodup.of_map nf) fun c hc =>
        hfair.indexed c (hconsumed ▸ hc)
      rw [hconsumed, hinserted, hsum]
      exact le_rfl
  | purchaseRwa c p n id tx oc change =>
      have hbuy := hbuys ⟨c, s.rwaPrices id, change⟩ rfl
      simp only [Call.inserted, Call.notePaidForRwa, Call.notePaidOut, Call.consumed,
        Call.noteDeposited, List.map_singleton, List.sum_singleton, add_zero]
      exact hbuy
  | purchaseAccess c p n id tx ac change =>
      obtain ⟨-, -, -, cfg, hcfg, -⟩ := purchaseAccess_eq_ok.1 hcall
      have hbuy := hbuys ⟨c, cfg.price, change⟩ (by simp [Call.noteSpend, hcfg])
      simp only [Call.inserted, Call.notePaidForRwa, Call.notePaidOut, Call.consumed,
        Call.noteDeposited, hcfg, Option.elim_some, List.map_singleton, List.sum_singleton,
        add_zero]
      exact hbuy
  | withdrawPrivate c n p dest v =>
      obtain ⟨-, -, -, hproof, -⟩ := withdrawPrivate_eq_ok.1 hcall
      have hopens : OpensTo P c (v.toNat : Scalar) := hsound.notes.opening _ _ _ _ hproof
      simp only [Call.inserted, Call.notePaidForRwa, Call.notePaidOut, Call.consumed,
        Call.noteDeposited, List.map_singleton, List.sum_singleton, List.map_nil, List.sum_nil,
        zero_add, add_zero]
      exact (hopens.committedValue_eq hind v.toNat_lt).ge
  | _ => exact Nat.zero_le _

/-- What a call does to the unspent notes: they lose what is paid with notes, and gain no
more than what is paid in for them. -/
theorem NoteBooks.call (h : NoteBooks P s notes) {x : Extrinsic A T.maxRangeProofSize}
    (hfair : FairNotes P s nf x.call) (hok : apply T s x = .ok s') :
    x.call.notePaidForRwa s + x.call.notePaidOut s +
        unspentNotes P nf s'.nullifierUsed (notes ++ x.call.inserted) ≤
      unspentNotes P nf s.nullifierUsed notes + x.call.noteDeposited T := by
  have hbalance := h.balance hind hcodec hsound hfair hok
  have hmarks := apply_marks hok
  have hnodup := apply_nullifiers_nodup hok
  rw [hfair.derived] at hmarks hnodup
  have hlive (c : U8Array 32) (hc : c ∈ x.call.consumed) : LiveNote nf s.nullifierUsed c :=
    hmarks.nullifier_fresh _ (List.mem_map_of_mem hc)
  have hdead (c : U8Array 32) (hc : c ∈ x.call.consumed) : ¬ LiveNote nf s'.nullifierUsed c := by
    rw [LiveNote, hmarks.nullifierUsed,
      markAll_eq_true.2 (.inr (List.mem_map_of_mem hc)), Bool.true_eq_false]
    exact not_false
  have hkept (c : U8Array 32) (_ : c ∈ notes) (hc : LiveNote nf s'.nullifierUsed c) :
      LiveNote nf s.nullifierUsed c := by
    rw [LiveNote, hmarks.nullifierUsed, Bool.eq_false_iff, ne_eq, markAll_eq_true, not_or] at hc
    exact Bool.eq_false_iff.2 hc.1
  have hspent : (x.call.consumed.map (committedValue P)).sum +
      worth (committedValue P) (LiveNote nf s'.nullifierUsed) notes ≤
        worth (committedValue P) (LiveNote nf s.nullifierUsed) notes :=
    worth_spend_all (hnodup.of_map nf) (fun c hc => (h.indexed c).1 (hfair.indexed c hc))
      hlive hdead hkept
  have hnew : worth (committedValue P) (LiveNote nf s'.nullifierUsed) x.call.inserted ≤
      (x.call.inserted.map (committedValue P)).sum := worth_le_sum _
  rw [unspentNotes, unspentNotes, worth_append]
  omega

end Books

section Pool

variable [DecidableEq A] {free : L → A → ℕ}
  (hind : LinearIndependent Scalar ![generatorG1 P, P.basepoint, generatorH P])
  (hzero : P.decompress (U8Array.zero 32) = some 0)
  (hcodec : ∀ p q, P.decompress (P.compress p) = some q → q = p) (hpads : PadsUnopened P)

include hind hzero hcodec hpads

/-- In every run of fair calls the pool holds what it had at genesis, the prices of the
assets sold, the value of all live coins and the value of all unspent notes. -/
theorem scan_pool_solvent (T : Config A L) (hcoins : CoinProofsSound P T.proofVerifier)
    (hnotes : NoteProofsSound P T.proofVerifier) (hpad : T.proofVerifier.padGroup = padGroup P)
    (hmoves : T.currency.Moves free) (nf : U8Array 32 → U8Array 32) (ledger : L)
    (xs : List (Extrinsic A T.maxRangeProofSize))
    (hsigner : ∀ e ∈ history (apply T) (genesis ledger) xs, e.2.origin ≠ .signed T.poolAccount)
    (hfair : ∀ e ∈ history (apply T) (genesis ledger) xs,
      FairSpend P e.2.call ∧ FairNotes P e.1 nf e.2.call) :
    free ledger T.poolAccount +
          total (fun s c => c.coinPaidForRwa s + c.notePaidForRwa s)
            (history (apply T) (genesis ledger) xs) +
          liveValue P (run (apply T) (genesis ledger) xs).serialUsed
            (registeredCoins (history (apply T) (genesis ledger) xs)) +
          unspentNotes P nf (run (apply T) (genesis ledger) xs).nullifierUsed
            (insertedNotes (history (apply T) (genesis ledger) xs)) ≤
        free (run (apply T) (genesis ledger) xs).ledger T.poolAccount := by
  have hrun := @history_invariant _ _ _ (apply T)
    (fun s x => x.origin ≠ .signed T.poolAccount ∧ FairSpend P x.call ∧ FairNotes P s nf x.call)
    (fun s past => CoinBooks P s (registeredCoins past) ∧ NoteBooks P s (insertedNotes past) ∧
      free ledger T.poolAccount + total (fun s c => c.coinPaidForRwa s + c.notePaidForRwa s) past +
          liveValue P s.serialUsed (registeredCoins past) +
          unspentNotes P nf s.nullifierUsed (insertedNotes past) ≤
        free s.ledger T.poolAccount)
    (fun s x s' past ⟨hcoin, hnote, hle⟩ ⟨hx, hspend, hfairs⟩ hok => by
      have hcoin' := (hcoin.call hind hpads hcoins hpad hzero hspend hok).2
      have hnote' := hnote.call hind hcodec hnotes hfairs hok
      have hpaid := pool_of_apply hmoves hx hok
      have hinserted : insertedNotes (past ++ [(s, x)]) =
          insertedNotes past ++ x.call.inserted := by
        rw [Call.inserted_eq]
        simp [insertedNotes]
      rw [registeredCoins_append_singleton, total_append, hinserted]
      refine ⟨hcoin.step hind hpads hcoins hpad hzero hspend hok,
        hnote.step hnotes hfairs hok, ?_⟩
      dsimp only
      omega)
    (genesis ledger) xs [] ⟨⟨grouped_genesis ledger, by simp [registeredCoins], by simp [genesis]⟩,
      noteBooks_genesis ledger, by
        simp [total, registeredCoins, insertedNotes, unspentNotes, genesis]⟩
    fun e he => ⟨hsigner e he, hfair e he⟩
  exact hrun.2.2

end Pool

section Example

theorem relationVerifier_verify {proof pi : List UInt8} :
    (relationVerifier P).verify proof pi = true ↔
      ∃ i, ProofPublicInputs.decode pi = some i ∧ BalanceRelation P i := by
  simp [relationVerifier]

theorem relationVerifier_noteProofsSound (P : Primitives V) :
    NoteProofsSound P (relationVerifier P) where
  notes := relationVerifier_notesSound P
  balance proof pi inputs h hdec := by
    obtain ⟨i, hi, hbalance⟩ := relationVerifier_verify.1 h
    obtain rfl := Option.some.inj (hdec.symm.trans hi)
    exact hbalance

theorem respentNote_opens_padded : OpensTo paddedPrimitives (respentNote 5) (10 : ℕ) := by
  refine ⟨_, padded_decompress_encode (by norm_num) (by norm_num) (by norm_num),
    ((5 : ℕ) : Scalar), ?_⟩
  rw [padded_generatorH]
  simp [paddedPrimitives]

/-- The note of ten is deposited. -/
def tenDeposit : Extrinsic (U8Array 32) paddedConfig.maxRangeProofSize :=
  .signed respentAccount (.depositPublic (respentNote 5).toList (depositBytes 10) BoundedVec.empty)

/-- The note of ten is withdrawn. -/
def tenWithdrawal : Extrinsic (U8Array 32) paddedConfig.maxRangeProofSize :=
  .unsigned (.withdrawPrivate (respentNote 5) (U8Array.ofNat 32 7) zeroOpening
    respentAccount.toList 10)

theorem tenNotes_succeed : ∃ s : State (U8Array 32 → ℕ), Indexed s (respentNote 5) ∧
    history (apply paddedConfig) (genesis respentLedger) [tenDeposit, tenWithdrawal] =
      [(genesis respentLedger, tenDeposit), (s, tenWithdrawal)] := by
  have hne : respentAccount ≠ paddedConfig.poolAccount := by
    simp only [paddedConfig, vectorConfig, respentAccount]
    decide
  have hlen : zeroOpening.length = 64 := List.length_replicate
  have hopen : OpensTo paddedPrimitives (respentNote 5) (Scalar.ofU64 10) :=
    respentNote_opens_padded
  have hbal : (10 : UInt64).toNat ≤ respentLedger respentAccount := by decide
  have hroom : (genesis respentLedger).leaves.val.length < 1048576 := by decide
  have hrange : (relationVerifier paddedPrimitives).verifyRangeProof [] [respentNote 5] [] 64 =
      true := by
    refine (relationVerifier_verifyRangeProof _).2 ⟨by simp, fun c hc => ?_⟩
    obtain rfl := List.mem_singleton.1 hc
    exact ⟨10, by decide, respentNote_opens_padded⟩
  obtain ⟨s, h₁, hledger, hindex, hfresh⟩ : ∃ s,
      apply paddedConfig (genesis respentLedger) tenDeposit = .ok s ∧
        s.ledger = moveBalance respentLedger respentAccount paddedConfig.poolAccount 10 ∧
        Indexed s (respentNote 5) ∧ s.nullifierUsed (U8Array.ofNat 32 7) = false := by
    refine ⟨_, apply_eq_ok.2 ⟨fun _ h => (by cases h), depositPublic_eq_ok.2 ⟨_, rfl, _, rfl, [],
      10, depositBytes_parse 10, hrange, _, balances_transfer_of_le hbal _ _, rfl, _,
      insertNote_eq_ok.2 ⟨_, BoundedVec.tryPush_of_lt hroom _, rfl⟩, rfl⟩⟩, rfl, ?_, rfl⟩
    simp [Indexed, State.depositEvent, updateRoot]
  have hpool : (10 : UInt64).toNat ≤ s.ledger paddedConfig.poolAccount := by
    rw [hledger, moveBalance_dest hne]
    exact Nat.le_add_left 10 _
  have hdest : paddedConfig.decodeAccount respentAccount.toList = some respentAccount := by
    have htake : respentAccount.toList.take 32 = respentAccount.toList :=
      List.take_of_length_le (by simp)
    exact copyFromSlice_eq_some.2 htake
  have hproof : (relationVerifier paddedPrimitives).verifyOpeningKnowledge 10 (respentNote 5)
      zeroOpening ((U8Array.ofNat 32 7).toList ++ (respentNote 5).toList) = true :=
    (relationVerifier_verifyOpeningKnowledge _).2 ⟨hlen, hopen⟩
  obtain ⟨s', h₂⟩ : ∃ s', apply paddedConfig s tenWithdrawal = .ok s' :=
    ⟨_, unsigned_eq_ok.2 ⟨validateWithdrawPrivate_ok.2 ⟨hfresh, hindex, hlen, hproof⟩,
      withdrawPrivate_eq_ok.2 ⟨rfl, hindex, hfresh, hproof, by simp, _, hdest, _,
        balances_transfer_of_le hpool _ _, rfl⟩⟩⟩
  refine ⟨s, hindex, ?_⟩
  rw [history_cons_ok h₁, history_cons_ok h₂, history_nil]

/-- The note of ten in and out again, under the nullifier seven. -/
theorem tenNotes_solvent : ∃ s : State (U8Array 32 → ℕ),
    history (apply paddedConfig) (genesis respentLedger) [tenDeposit, tenWithdrawal] =
        [(genesis respentLedger, tenDeposit), (s, tenWithdrawal)] ∧
      respentLedger paddedConfig.poolAccount +
            total (fun s c => c.coinPaidForRwa s + c.notePaidForRwa s)
              (history (apply paddedConfig) (genesis respentLedger) [tenDeposit, tenWithdrawal]) +
            liveValue paddedPrimitives
              (run (apply paddedConfig) (genesis respentLedger)
                [tenDeposit, tenWithdrawal]).serialUsed
              (registeredCoins (history (apply paddedConfig) (genesis respentLedger)
                [tenDeposit, tenWithdrawal])) +
            unspentNotes paddedPrimitives (fun _ => U8Array.ofNat 32 7)
              (run (apply paddedConfig) (genesis respentLedger)
                [tenDeposit, tenWithdrawal]).nullifierUsed
              (insertedNotes (history (apply paddedConfig) (genesis respentLedger)
                [tenDeposit, tenWithdrawal])) ≤
          (run (apply paddedConfig) (genesis respentLedger)
            [tenDeposit, tenWithdrawal]).ledger paddedConfig.poolAccount := by
  obtain ⟨s, hindex, hrun⟩ := tenNotes_succeed
  refine ⟨s, hrun, scan_pool_solvent padded_independent padded_decompress_zero padded_codec
    padded_padsUnopened paddedConfig padded_proofsSound
    (relationVerifier_noteProofsSound _) rfl balances_moves _ respentLedger _ ?_ ?_⟩
  · rw [hrun]
    intro e he
    simp only [List.mem_cons, List.not_mem_nil, or_false] at he
    rcases he with rfl | rfl
    · have hne : respentAccount ≠ U8Array.ofNat 32 1 := by decide
      exact fun h => hne (Origin.signed.inj h)
    · exact nofun
  · rw [hrun]
    intro e he
    simp only [List.mem_cons, List.not_mem_nil, or_false] at he
    rcases he with rfl | rfl
    · refine ⟨⟨nofun, nofun⟩, rfl, nofun, nofun, fun commitment rp hints hcall c hc => ?_⟩
      obtain ⟨rfl, rfl, -⟩ := Call.depositPublic.inj hcall
      obtain rfl := Option.some.inj ((copyFromSlice_eq_some.2 rfl).symm.trans hc)
      have hpaid : tenDeposit.call.noteDeposited paddedConfig = 10 :=
        congrArg (fun r => r.toOption.elim 0 fun d => d.2.toNat) (depositBytes_parse 10)
      rw [hpaid]
      exact respentNote_opens_padded
    · refine ⟨⟨nofun, nofun⟩, rfl, fun c hc => ?_, nofun, nofun⟩
      obtain rfl := List.mem_singleton.1 hc
      exact hindex

end Example

end NullaRelay.ScanProof
