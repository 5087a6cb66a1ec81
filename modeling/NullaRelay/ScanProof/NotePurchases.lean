import NullaRelay.ScanProof.ValidateUnsigned

/-!
# The note calls of ScanProof

Exactly when a purchase or a withdrawal with a note succeeds, and what it leaves.
-/

namespace NullaRelay.ScanProof

open NullaRelay.Frame

variable {A L : Type} {T : Config A L} {s s' : State L} {o : Origin A}

/-- The state after a note has entered the tree. -/
theorem insertNote_eq_ok {c : U8Array 32} :
    insertNote T s c = .ok s' ↔
      ∃ leaves, s.leaves.tryPush (leafHash T c) = some leaves ∧
        s' = updateRoot T { s with
          leaves
          commitmentIndex := insertAt s.commitmentIndex c
            (some (UInt32.ofNat s.leaves.val.length)) } leaves := by
  simp only [insertNote, pushLeaf, bind_eq_ok, ensure_eq_ok, okOr_eq_ok, pure_eq_ok,
    exists_and_left, exists_const]
  constructor
  · rintro ⟨-, _, ⟨leaves, hpush, rfl⟩, rfl⟩
    exact ⟨leaves, hpush, rfl⟩
  · rintro ⟨leaves, hpush, rfl⟩
    exact ⟨(BoundedVec.tryPush_eq_some.1 hpush).1, _, ⟨leaves, hpush, rfl⟩, rfl⟩

theorem insertNote_ok_iff {c : U8Array 32} :
    (∃ t, insertNote T s c = .ok t) ↔ s.leaves.val.length < 1048576 := by
  simp only [insertNote_eq_ok]
  constructor
  · rintro ⟨_, leaves, hpush, -⟩
    exact (BoundedVec.tryPush_eq_some.1 hpush).1
  · intro hroom
    exact ⟨_, _, BoundedVec.tryPush_of_lt hroom _, rfl⟩

theorem insertChange_ok_iff {change : Option (U8Array 32)} :
    (∃ t, insertChange T s change = .ok t) ↔
      (change.isSome → s.leaves.val.length < 1048576) := by
  cases change with
  | none => simp [insertChange]
  | some c => simp [insertChange, insertNote_ok_iff]

/-- The notes of a transfer, pushed and indexed one after the other. -/
theorem foldlM_pushLeaf_eq_ok {cs : List (U8Array 32)} (h : cs.foldlM (pushLeaf T) s = .ok s') :
    ∃ leaves, leaves.val = s.leaves.val ++ cs.map (leafHash T) ∧ s' = { s with
      leaves
      commitmentIndex := NoteTree.indexAll s.commitmentIndex s.leaves.val.length cs } := by
  induction cs generalizing s with
  | nil =>
      obtain rfl : s = s' := by simpa using h
      exact ⟨s.leaves, by simp, rfl⟩
  | cons c cs ih =>
      rw [List.foldlM_cons, bind_eq_ok] at h
      obtain ⟨t, ht, hrest⟩ := h
      simp only [pushLeaf, bind_eq_ok, okOr_eq_ok, pure_eq_ok] at ht
      obtain ⟨leaves, hpush, rfl⟩ := ht
      have hleaves := (BoundedVec.tryPush_eq_some.1 hpush).2
      obtain ⟨leaves', hleaves', rfl⟩ := ih hrest
      refine ⟨leaves', ?_, ?_⟩
      · simpa [hleaves] using hleaves'
      · simp [hleaves, NoteTree.indexAll]

variable (T) in
/-- What a transfer checks of its public inputs before it stores anything. -/
structure TransferChecked (s : State L) (proof rangeProof publicInputs : List UInt8)
    (inputs : ProofPublicInputs) : Prop where
  decoded : ProofPublicInputs.decode publicInputs = some inputs
  ranged : T.proofVerifier.verifyRangeProof rangeProof inputs.newCommitments publicInputs 64
  proved : T.proofVerifier.verify proof publicInputs
  fresh : ∀ n ∈ inputs.nullifiers, s.nullifierUsed n = false
  distinct : inputs.newCommitments.Nodup
  unindexed : ∀ c ∈ inputs.newCommitments, s.commitmentIndex c = none

theorem submitProof_of_ok {proof publicInputs : List UInt8}
    {rangeProof : BoundedVec UInt8 T.maxRangeProofSize} {hints : BoundedVec UInt8 4096}
    (h : submitProof T s o proof rangeProof publicInputs hints = .ok s') :
    ∃ inputs leaves, TransferChecked T s proof rangeProof.val publicInputs inputs ∧
      leaves.val = s.leaves.val ++ inputs.newCommitments.map (leafHash T) ∧
      s' = (updateRoot T { s with
          nullifierUsed := markAll s.nullifierUsed inputs.nullifiers
          leaves
          commitmentIndex := NoteTree.indexAll s.commitmentIndex s.leaves.val.length
            inputs.newCommitments } leaves).depositEvent
        (.proofAccepted inputs.txId (computeMerkleRoot T leaves.val) inputs.newCommitments
          hints) := by
  simp only [submitProof, ensureNone_eq_ok, bind_eq_ok, ensure_eq_ok, okOr_eq_ok, pure_eq_ok,
    exists_and_left, exists_const] at h
  obtain ⟨-, -, -, inputs, hdec, -, -, hrange, hproof, -, hfresh, hnew, -, -, t, ht, -, rfl⟩ := h
  obtain ⟨leaves, hleaves, rfl⟩ := foldlM_pushLeaf_eq_ok ht
  exact ⟨inputs, leaves, ⟨hdec, hrange, hproof, hfresh, hnew.1, hnew.2⟩, hleaves, rfl⟩

theorem depositPublic_eq_ok {commitment : List UInt8}
    {rp : BoundedVec UInt8 T.maxRangeProofSize} {hints : BoundedVec UInt8 4096} :
    depositPublic T s o commitment rp hints = .ok s' ↔
      ∃ who, o = .signed who ∧ ∃ c : U8Array 32, commitment = c.toList ∧
        ∃ bp amt, parseDeposit T rp.val = .ok (bp, amt) ∧
          T.proofVerifier.verifyRangeProof bp [c] [] 64 ∧
          ∃ ledger, T.currency.transfer s.ledger who T.poolAccount amt.toNat .keepAlive
              = some ledger ∧ s.commitmentIndex c = none ∧
            ∃ t, insertNote T { s with ledger } c = .ok t ∧
              s' = t.depositEvent (.depositAccepted c t.currentRoot hints) := by
  simp [depositPublic, copyFromSlice_eq_some, @eq_comm _ s']

variable (T) in
/-- The opening proof of a purchase holds at a price. -/
def OpensAt (c : U8Array 32) (proof : List UInt8) (n id : U8Array 32) (tx : U8Array 16)
    (price : UInt64) (change : Option (U8Array 32)) : Prop :=
  ∃ effective, effectiveCommitment T c change = some effective ∧ proof.length = 64 ∧
    T.proofVerifier.verifyOpeningKnowledge price effective proof (purchaseBinding n id tx change) =
      true

/-- The state with the nullifier marked. -/
def markNullifier (s : State L) (n : U8Array 32) : State L :=
  { s with nullifierUsed := insertAt s.nullifierUsed n true }

theorem spendNote_eq_ok {c n id : U8Array 32} {proof : List UInt8} {tx : U8Array 16}
    {price : UInt64} {change : Option (U8Array 32)} :
    spendNote T s c proof n id tx price change = .ok s' ↔
      (∀ cc ∈ change, s.commitmentIndex cc = none) ∧ OpensAt T c proof n id tx price change ∧
      s' = markNullifier s n := by
  simp only [spendNote, bind_eq_ok, ensure_eq_ok, okOr_eq_ok, pure_eq_ok, exists_const,
    @eq_comm _ s']
  constructor
  · rintro ⟨hnew, effective, heff, hlen, hproof, hs⟩
    exact ⟨hnew, ⟨effective, heff, hlen, hproof⟩, hs⟩
  · rintro ⟨hnew, ⟨effective, heff, hlen, hproof⟩, hs⟩
    exact ⟨hnew, effective, heff, hlen, hproof, hs⟩

theorem purchaseRwa_eq_ok {c n id oc : U8Array 32} {p : List UInt8} {tx : U8Array 16}
    {change : Option (U8Array 32)} :
    purchaseRwa T s o c p n id tx oc change = .ok s' ↔ o = .none ∧ s.nullifierUsed n = false ∧
      (s.commitmentIndex c).isSome ∧ 0 < s.rwaPrices id ∧
      (∀ cc ∈ change, s.commitmentIndex cc = none) ∧
      OpensAt T c p n id tx (s.rwaPrices id) change ∧ ∃ t,
      insertChange T (markNullifier s n) change = .ok t ∧
      s' = (t.depositEvent (.rwaPurchaseAuthorized id tx)).send
        (.rwaPurchase id n (U8Array.zero 32) (s.rwaPrices id) tx oc) := by
  simp only [purchaseRwa, bind_eq_ok, ensureNone_eq_ok, ensure_eq_ok, pure_eq_ok, exists_const,
    spendNote_eq_ok, @eq_comm _ s']
  constructor
  · rintro ⟨ho, hn, hc, hprice, _, ⟨hnew, hopen, rfl⟩, t, ht, hs⟩
    exact ⟨ho, hn, hc, hprice, hnew, hopen, t, ht, hs⟩
  · rintro ⟨ho, hn, hc, hprice, hnew, hopen, t, ht, hs⟩
    exact ⟨ho, hn, hc, hprice, _, ⟨hnew, hopen, rfl⟩, t, ht, hs⟩

theorem purchaseAccess_eq_ok {c n id ac : U8Array 32} {p : List UInt8} {tx : U8Array 16}
    {change : Option (U8Array 32)} :
    purchaseAccess T s o c p n id tx ac change = .ok s' ↔ o = .none ∧ s.nullifierUsed n = false ∧
      (s.commitmentIndex c).isSome ∧ ∃ cfg, s.accessKeyConfigs id = some cfg ∧ 0 < cfg.price ∧
      (∀ cc ∈ change, s.commitmentIndex cc = none) ∧ OpensAt T c p n id tx cfg.price change ∧
      ∃ t, payApp T (markNullifier s n) cfg = .ok t ∧ ∃ u, insertChange T t change = .ok u ∧
      s' = (u.depositEvent (.accessPurchaseAuthorized id tx)).send (.accessKey id n tx ac) := by
  simp only [purchaseAccess, bind_eq_ok, ensureNone_eq_ok, ensure_eq_ok, okOr_eq_ok, pure_eq_ok,
    exists_const, spendNote_eq_ok, @eq_comm _ s']
  constructor
  · rintro ⟨ho, hn, hc, cfg, hcfg, hprice, _, ⟨hnew, hopen, rfl⟩, t, ht, u, hu, hs⟩
    exact ⟨ho, hn, hc, cfg, hcfg, hprice, hnew, hopen, t, ht, u, hu, hs⟩
  · rintro ⟨ho, hn, hc, cfg, hcfg, hprice, hnew, hopen, t, ht, u, hu, hs⟩
    exact ⟨ho, hn, hc, cfg, hcfg, hprice, _, ⟨hnew, hopen, rfl⟩, t, ht, u, hu, hs⟩

theorem withdrawPrivate_eq_ok {c n : U8Array 32} {p dest : List UInt8} {v : UInt64} :
    withdrawPrivate T s o c n p dest v = .ok s' ↔ o = .none ∧ (s.commitmentIndex c).isSome ∧
      s.nullifierUsed n = false ∧
      T.proofVerifier.verifyOpeningKnowledge v c p (n.toList ++ c.toList) = true ∧
      dest.length = 32 ∧ ∃ account, T.decodeAccount dest = some account ∧ ∃ ledger,
      T.currency.transfer s.ledger T.poolAccount account v.toNat .allowDeath = some ledger ∧
      s' = State.depositEvent { s with
          ledger, nullifierUsed := insertAt s.nullifierUsed n true }
        (.withdrawCompleted n dest v) := by
  simp [withdrawPrivate, @eq_comm _ s']

/-- The pool can pay the app. -/
def AppPayable (T : Config A L) (ledger : L) (cfg : AppConfig) : Prop :=
  ∃ dest, T.decodeAccount cfg.paymentAccount.toList = some dest ∧ ∃ ledger',
    T.currency.transfer ledger T.poolAccount dest cfg.price.toNat .allowDeath = some ledger'

theorem payApp_eq_ok {cfg : AppConfig} :
    payApp T s cfg = .ok s' ↔
      ∃ dest, T.decodeAccount cfg.paymentAccount.toList = some dest ∧ ∃ ledger,
        T.currency.transfer s.ledger T.poolAccount dest cfg.price.toNat .allowDeath =
          some ledger ∧ s' = { s with ledger } := by
  simp [payApp, @eq_comm _ s']

theorem payApp_ok_iff {cfg : AppConfig} :
    (∃ t, payApp T s cfg = .ok t) ↔ AppPayable T s.ledger cfg := by
  simp only [payApp_eq_ok, AppPayable]
  constructor
  · rintro ⟨_, dest, hdest, ledger, hpay, -⟩
    exact ⟨dest, hdest, ledger, hpay⟩
  · rintro ⟨dest, hdest, ledger, hpay⟩
    exact ⟨_, dest, hdest, ledger, hpay, rfl⟩

theorem unsigned_eq_ok {call : Call T.maxRangeProofSize} :
    apply T s (.unsigned call) = .ok s' ↔
      (∃ v, validateUnsigned T s call = .ok v) ∧ dispatch T s .none call = .ok s' := by
  rw [apply_eq_ok]
  exact and_congr_left fun _ => ⟨fun h => h call rfl, fun h c hc => by cases hc; exact h⟩

theorem validateWithdrawPrivate_ok {c n : U8Array 32} {p : List UInt8} {v : UInt64} :
    (∃ t, validateWithdrawPrivate T s c n p v = .ok t) ↔
      s.nullifierUsed n = false ∧ (s.commitmentIndex c).isSome ∧ p.length = 64 ∧
      T.proofVerifier.verifyOpeningKnowledge v c p (n.toList ++ c.toList) = true := by
  simp [validateWithdrawPrivate]

theorem validateOpening_ok (tag : String) {c n id : U8Array 32} {p : List UInt8}
    {tx : U8Array 16} {price : UInt64} {change : Option (U8Array 32)} :
    (∃ t, validateOpening T c p n id tx price change tag = .ok t) ↔
      OpensAt T c p n id tx price change := by
  simp only [validateOpening, OpensAt, bind_eq_ok, ensure_eq_ok, okOr_eq_ok, pure_eq_ok,
    exists_const]
  constructor
  · rintro ⟨_, hlen, effective, heff, hproof, -⟩
    exact ⟨effective, heff, hlen, hproof⟩
  · rintro ⟨effective, heff, hlen, hproof⟩
    exact ⟨_, hlen, effective, heff, hproof, rfl⟩

theorem validatePurchaseRwa_ok {c n id : U8Array 32} {p : List UInt8} {tx : U8Array 16}
    {change : Option (U8Array 32)} :
    (∃ v, validatePurchaseRwa T s c p n id tx change = .ok v) ↔ s.nullifierUsed n = false ∧
      (s.commitmentIndex c).isSome ∧ 0 < s.rwaPrices id ∧
      OpensAt T c p n id tx (s.rwaPrices id) change := by
  rw [← validateOpening_ok "ScanRwaPurchase", UInt64.pos_iff_ne_zero]
  simp only [validatePurchaseRwa, bind_eq_ok, ensure_eq_ok, exists_const, exists_and_left]

theorem validatePurchaseAccess_ok {c n id : U8Array 32} {p : List UInt8} {tx : U8Array 16}
    {change : Option (U8Array 32)} :
    (∃ v, validatePurchaseAccess T s c p n id tx change = .ok v) ↔ s.nullifierUsed n = false ∧
      (s.commitmentIndex c).isSome ∧ ∃ cfg, s.accessKeyConfigs id = some cfg ∧ 0 < cfg.price ∧
      OpensAt T c p n id tx cfg.price change := by
  simp only [validatePurchaseAccess, bind_eq_ok, ensure_eq_ok, okOr_eq_ok, exists_const,
    exists_and_left, Option.filter_eq_some_iff, decide_eq_true_eq]
  refine and_congr_right fun _ => and_congr_right fun _ => ?_
  constructor
  · rintro ⟨v, cfg, ⟨hcfg, hprice⟩, hv⟩
    exact ⟨cfg, hcfg, hprice, (validateOpening_ok "ScanAccessPurchase").1 ⟨v, hv⟩⟩
  · rintro ⟨cfg, hcfg, hprice, hopen⟩
    obtain ⟨v, hv⟩ := (validateOpening_ok "ScanAccessPurchase").2 hopen
    exact ⟨v, cfg, ⟨hcfg, hprice⟩, hv⟩

/-- The admission of a purchase checks nothing that the call does not. -/
theorem validatePurchaseRwa_of_ok {c n id oc : U8Array 32} {p : List UInt8} {tx : U8Array 16}
    {change : Option (U8Array 32)} (h : purchaseRwa T s o c p n id tx oc change = .ok s') :
    ∃ t, validatePurchaseRwa T s c p n id tx change = .ok t := by
  obtain ⟨-, hn, hc, hprice, -, hopen, -⟩ := purchaseRwa_eq_ok.1 h
  exact validatePurchaseRwa_ok.2 ⟨hn, hc, hprice, hopen⟩

end NullaRelay.ScanProof
