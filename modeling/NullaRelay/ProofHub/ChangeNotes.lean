import NullaRelay.ProofHub.Accepting

/-!
# Change notes of the first lane

A change note has two commitments. The purchase proof speaks about the one for
later purchases, which was registered before; the one that withdrawals and
relists open is a field of the purchase and no proof reads it. An opening of the
change note has the value that the purchase left over exactly when this field
commits to it.
-/

namespace NullaRelay.ProofHub

open NullaRelay.Frame V2 Transition LittleEndian

variable {rpValue : U8Array 32 → UInt64} {A L : Type} {T : Config A L} {s s' : State L}
  {x : Extrinsic A}

/-- Commitments open to one value. -/
def CommitmentsBind (V : ProofVerify) : Prop :=
  ∀ v b v' b' c, V.verifyCommitment v b c = true → V.verifyCommitment v' b' c = true → v = v'

/-- An accepted purchase proof: the spent note covers the price and the change has
the remainder. -/
def PurchaseSound (V : ProofVerify) (rpValue : U8Array 32 → UInt64) : Prop :=
  ∀ proof rp changeRp price, V.verifyPurchaseProof proof rp changeRp price = true →
    price ≤ rpValue rp ∧ rpValue changeRp = rpValue rp - price

/-- The change of a v1 purchase: the commitment that it registers, the tag, the
value of the spent note and the price. -/
structure ChangeOutput where
  commitment : U8Array 32
  tag : U8Array 32
  spent : UInt64
  price : UInt64

variable (rpValue s) in
def changeAt (i : RwaPurchaseInputs) (price : UInt64) : Option ChangeOutput := do
  let (commitment, tag) ← registeredChange s i
  let rp ← s.spendTagRpCommitments i.spendTag
  pure { commitment, tag, spent := rpValue rp, price }

variable (rpValue s) in
/-- The change note that a purchase registers. -/
def changeOutput : Call → Option ChangeOutput
  | .purchaseRwa _ pi => do
      let i ← RwaPurchaseInputs.decode pi
      changeAt rpValue s i (s.rwaPrices i.rwaId)
  | .purchaseAccess _ pi => do
      let i ← RwaPurchaseInputs.decode pi
      let cfg ← s.accessKeyConfigs i.rwaId
      changeAt rpValue s i cfg.price
  | _ => none

/-- The tag whose commitment a call opens, and the value. -/
def opening : Call → Option (U8Array 32 × UInt64)
  | .withdrawPrivate _ pi => (WithdrawInputs.decode pi).map fun i => (i.spendTag, i.noteValue)
  | .relistPrivate i => some (i.newBuyerSpendTag, i.buyerValue)
  | _ => none

/-- The second call opens what the first registered as its change. -/
def OpensChange (n : ChangeOutput) (v : UInt64) (e : State L × Extrinsic A) : Prop :=
  opening e.2.2 = some (n.tag, v) ∧ e.1.spendTagCommitments n.tag = some n.commitment

variable (rpValue) in
/-- The second call opens the change of the first to what the price left over. -/
def OpensRemainder (e₁ e₂ : State L × Extrinsic A) : Prop :=
  ∀ n ∈ changeOutput rpValue e₁.1 e₁.2.2, ∀ v, OpensChange n v e₂ →
    n.price ≤ n.spent ∧ v = n.spent - n.price

variable (rpValue T) in
/-- The change that the second call opens was registered with a commitment to what
the price left over. -/
def HonestChange (e₁ e₂ : State L × Extrinsic A) : Prop :=
  ∀ n ∈ changeOutput rpValue e₁.1 e₁.2.2, ∀ v, OpensChange n v e₂ →
    ∃ b, T.proofVerifier.verifyCommitment (n.spent - n.price) b n.commitment = true

theorem changeAt_eq_some {i : RwaPurchaseInputs} {price : UInt64} {n : ChangeOutput}
    (h : changeAt rpValue s i price = some n) :
    ∃ rp, s.spendTagRpCommitments i.spendTag = some rp ∧ n.spent = rpValue rp ∧
      n.price = price := by
  simp only [changeAt, Option.bind_eq_bind, Option.bind_eq_some_iff] at h
  obtain ⟨note, -, rp, hrp, hn⟩ := h
  cases hn
  exact ⟨rp, hrp, rfl, rfl⟩

theorem price_le_of_tagSpendable (hsound : PurchaseSound T.proofVerifier rpValue)
    {proof pi : List UInt8} {i : RwaPurchaseInputs} {price : UInt64} {changeRp rp : U8Array 32}
    (h : TagSpendable T s proof pi i price changeRp)
    (hrp : s.spendTagRpCommitments i.spendTag = some rp) : price ≤ rpValue rp := by
  obtain ⟨rp', hrp', hproof⟩ := h.proved
  obtain rfl : rp = rp' := Option.some.inj (hrp.symm.trans hrp')
  exact (hsound _ _ _ _ hproof).1

/-- The spent note of an accepted purchase covers the price. -/
theorem price_le_of_apply (hsound : PurchaseSound T.proofVerifier rpValue)
    (h : apply T s x = .ok s') {n : ChangeOutput} (hn : changeOutput rpValue s x.2 = some n) :
    n.price ≤ n.spent := by
  obtain ⟨o, call⟩ := x
  cases call with
  | purchaseRwa p pi =>
      obtain ⟨-, i, changeRp, hspend, -⟩ := purchaseRwa_eq_ok.1 h
      rw [changeOutput, hspend.decoded] at hn
      obtain ⟨rp, hrp, hspent, hprice⟩ := changeAt_eq_some hn
      rw [hspent, hprice]
      exact price_le_of_tagSpendable hsound hspend hrp
  | purchaseAccess p pi =>
      obtain ⟨-, i, cfg, changeRp, hcfg, hspend, -⟩ := purchaseAccess_eq_ok.1 h
      rw [changeOutput, hspend.decoded, Option.bind_eq_bind, Option.bind_some, hcfg] at hn
      obtain ⟨rp, hrp, hspent, hprice⟩ := changeAt_eq_some hn
      rw [hspent, hprice]
      exact price_le_of_tagSpendable hsound hspend hrp
  | _ => cases hn

/-- A call that opens a tag shows an opening of its commitment. -/
theorem verifyCommitment_of_opening (h : apply T s x = .ok s') {t : U8Array 32} {v : UInt64}
    (hopen : opening x.2 = some (t, v)) {c : U8Array 32}
    (hc : s.spendTagCommitments t = some c) :
    ∃ b, T.proofVerifier.verifyCommitment v b c = true := by
  obtain ⟨o, call⟩ := x
  cases call with
  | withdrawPrivate p pi =>
      obtain ⟨-, i, hdec, -, -, ⟨stored, hstored, hverify⟩, -⟩ := withdrawPrivate_eq_ok.1 h
      rw [opening, hdec] at hopen
      cases hopen
      obtain rfl : c = stored := Option.some.inj (hc.symm.trans hstored)
      exact ⟨_, hverify⟩
  | relistPrivate i =>
      obtain ⟨-, change, hrelist, -⟩ := relistPrivate_eq_ok.1 h
      obtain ⟨stored, hstored, hverify⟩ := hrelist.opened
      cases hopen
      obtain rfl : c = stored := Option.some.inj (hc.symm.trans hstored)
      exact ⟨_, hverify⟩
  | _ => cases hopen

theorem opensRemainder_iff (hbind : CommitmentsBind T.proofVerifier)
    (hsound : PurchaseSound T.proofVerifier rpValue) {e₁ e₂ : State L × Extrinsic A}
    {s₁ s₂ : State L} (h₁ : apply T e₁.1 e₁.2 = .ok s₁) (h₂ : apply T e₂.1 e₂.2 = .ok s₂) :
    OpensRemainder rpValue e₁ e₂ ↔ HonestChange rpValue T e₁ e₂ := by
  refine forall₄_congr fun n hn v hopens => ?_
  obtain ⟨b, hb⟩ := verifyCommitment_of_opening h₂ hopens.1 hopens.2
  constructor
  · rintro ⟨-, rfl⟩
    exact ⟨b, hb⟩
  · rintro ⟨b', hb'⟩
    exact ⟨price_le_of_apply hsound h₁ hn, hbind _ _ _ _ _ hb hb'⟩

/-- In a run from any storage, every opening of a change note has the value that
its purchase left over exactly when the change notes that are opened were
registered with commitments to it. -/
theorem change_opens_to_remainder_iff (hbind : CommitmentsBind T.proofVerifier)
    (hsound : PurchaseSound T.proofVerifier rpValue) (s : State L) (xs : List (Extrinsic A)) :
    (history (apply T) s xs).Pairwise (OpensRemainder rpValue) ↔
      (history (apply T) s xs).Pairwise (HonestChange rpValue T) := by
  have hiff : ∀ e₁ ∈ history (apply T) s xs, ∀ e₂ ∈ history (apply T) s xs,
      (OpensRemainder rpValue e₁ e₂ ↔ HonestChange rpValue T e₁ e₂) := by
    intro e₁ he₁ e₂ he₂
    obtain ⟨s₁, h₁⟩ := ok_of_mem_history he₁
    obtain ⟨s₂, h₂⟩ := ok_of_mem_history he₂
    exact opensRemainder_iff hbind hsound h₁ h₂
  constructor
  · exact fun h => h.imp_of_mem fun he₁ he₂ => (hiff _ he₁ _ he₂).1
  · exact fun h => h.imp_of_mem fun he₁ he₂ => (hiff _ he₁ _ he₂).2

/-- The value that a string stands for in the model below. -/
def lowValue (bytes : U8Array 32) : UInt64 := UInt64.ofNat bytes.toNat

/-- A verifier whose commitments are the committed values themselves and whose
purchase proofs check the values. -/
def plainVerifier : ProofVerify :=
  { runtimeProofVerifier (acceptingPrimitives fun _ => U8Array.zero 32) with
    verifyCommitment := fun v _ c => c = U8Array.ofNat 32 v.toNat
    verifyPurchase := fun _ _ => true
    verifyWithdrawal := fun _ _ => true
    verifyPurchaseProof := fun _ rp changeRp price =>
      price ≤ lowValue rp ∧ lowValue changeRp = lowValue rp - price }

def plainConfig : Config (U8Array 32) (U8Array 32 → ℕ) :=
  { acceptingConfig fun _ => U8Array.zero 32 with proofVerifier := plainVerifier }

theorem lowValue_ofNat (v : UInt64) : lowValue (U8Array.ofNat 32 v.toNat) = v := by
  rw [lowValue, U8Array.toNat_ofNat (v.toNat_lt.trans (by norm_num)), UInt64.ofNat_toNat]

theorem plainVerifier_binds : CommitmentsBind plainVerifier := by
  intro v b v' b' c h h'
  have hv : c = U8Array.ofNat 32 v.toNat := of_decide_eq_true h
  have hv' : c = U8Array.ofNat 32 v'.toNat := of_decide_eq_true h'
  rw [← lowValue_ofNat v, ← hv, hv', lowValue_ofNat]

theorem plainVerifier_sound : PurchaseSound plainVerifier lowValue :=
  fun _ _ _ _ h => of_decide_eq_true h

/-- A storage with two legacy notes: five under the tag zero and four under the tag
one. -/
def legacyNotes : State (U8Array 32 → ℕ) :=
  { genesis tenEach with
    spendTagCommitments := fun t =>
      if t = U8Array.zero 32 then some (U8Array.ofNat 32 5)
      else if t = U8Array.ofNat 32 1 then some (U8Array.ofNat 32 4) else none
    spendTagRpCommitments := fun t =>
      if t = U8Array.zero 32 then some (U8Array.ofNat 32 5)
      else if t = U8Array.ofNat 32 1 then some (U8Array.ofNat 32 4) else none
    rwaPrices := fun _ => 1 }

/-- A purchase at price one with the note of value five; its change carries a
commitment of the caller's choice. -/
def purchaseWithChange (commitment : U8Array 32) : RwaPurchaseInputs where
  spendTag := U8Array.zero 32
  nullifier := U8Array.zero 32
  rwaId := U8Array.zero 32
  destination := []
  txId := U8Array.zero 16
  ownershipCommitment := U8Array.zero 32
  changeCommitment := some commitment
  changeSpendTag := some (U8Array.ofNat 32 1)
  purchaseProof := []

/-- A withdrawal of the note under the tag one. -/
def withdrawalOf (v : UInt64) : WithdrawInputs where
  spendTag := U8Array.ofNat 32 1
  destination := (U8Array.ofNat 32 2).toList
  txId := U8Array.zero 16
  noteValue := v
  noteBlinding := U8Array.zero 32

/-- The purchase with a change commitment to `v`, and the withdrawal of the change. -/
def changeRun (v : UInt64) : List (Extrinsic (U8Array 32)) :=
  [(.none, .purchaseRwa [] (purchaseWithChange (U8Array.ofNat 32 v.toNat)).encode),
    (.none, .withdrawPrivate [] (withdrawalOf v).encode)]

theorem purchaseWithChange_decode (c : U8Array 32) :
    RwaPurchaseInputs.decode (purchaseWithChange c).encode = some (purchaseWithChange c) :=
  RwaPurchaseInputs.decode_encode (by simp [purchaseWithChange]) (by simp [purchaseWithChange])

theorem plainVerifier_four_of_five (proof : List UInt8) :
    plainVerifier.verifyPurchaseProof proof (U8Array.ofNat 32 5) (U8Array.ofNat 32 4) 1 = true := by
  have hfour : lowValue (U8Array.ofNat 32 4) = 4 := lowValue_ofNat 4
  have hfive : lowValue (U8Array.ofNat 32 5) = 5 := lowValue_ofNat 5
  simp only [plainVerifier, hfour, hfive]
  decide

theorem purchaseWithChange_spendable (c : U8Array 32) :
    TagSpendable plainConfig legacyNotes [] (purchaseWithChange c).encode (purchaseWithChange c) 1
      (U8Array.ofNat 32 4) where
  decoded := purchaseWithChange_decode c
  fresh := rfl
  registered := rfl
  unused := rfl
  priced := by decide
  resolved := rfl
  proved := ⟨U8Array.ofNat 32 5, rfl, plainVerifier_four_of_five _⟩
  signed := rfl

/-- The purchase and the withdrawal of its change go through, whatever value up to
the pool's balance the change commits to. -/
theorem change_withdrawn {v : UInt64} (hv : v.toNat ≤ 10) : ∃ s₁ s₂,
    apply plainConfig legacyNotes
        (.none, .purchaseRwa [] (purchaseWithChange (U8Array.ofNat 32 v.toNat)).encode) = .ok s₁ ∧
      apply plainConfig s₁ (.none, .withdrawPrivate [] (withdrawalOf v).encode) = .ok s₂ ∧
      s₁.spendTagCommitments (U8Array.ofNat 32 1) = some (U8Array.ofNat 32 v.toNat) := by
  obtain ⟨s₁, hs₁⟩ : ∃ s₁, s₁ = rwaPurchased plainConfig legacyNotes
    (purchaseWithChange (U8Array.ofNat 32 v.toNat)) (U8Array.ofNat 32 4) := ⟨_, rfl⟩
  have h₁ : apply plainConfig legacyNotes
      (.none, .purchaseRwa [] (purchaseWithChange (U8Array.ofNat 32 v.toNat)).encode) = .ok _ :=
    purchaseRwa_eq_ok.2 ⟨rfl, _, _, purchaseWithChange_spendable _, by rw [← hs₁]⟩
  have hsame : s₁.withoutNotes = _ := hs₁ ▸ withoutNotes_rwaPurchased _ _
  have htag : s₁.spendTagCommitments (U8Array.ofNat 32 1) = some (U8Array.ofNat 32 v.toNat) := by
    rw [hs₁, rwaPurchased, insertChange_spendTagCommitments]
    rfl
  have hmarks : s₁.spendTagUsed = insertAt legacyNotes.spendTagUsed (U8Array.zero 32) true :=
    (congrArg State.spendTagUsed hsame :)
  have hunused : s₁.spendTagUsed (U8Array.ofNat 32 1) = false := by
    rw [hmarks]
    rfl
  have hledger : s₁.ledger = tenEach := (congrArg State.ledger hsame :)
  have hpay : balances.transfer s₁.ledger (U8Array.zero 32) (U8Array.ofNat 32 2) v.toNat
      .allowDeath = some _ := balances_transfer_of_le (by rw [hledger]; exact hv) _ _
  exact ⟨_, _, h₁, withdrawPrivate_eq_ok.2 ⟨rfl, withdrawalOf v,
    WithdrawInputs.decode_encode (by simp [withdrawalOf]), hunused, rfl,
    ⟨_, htag, decide_eq_true rfl⟩, rfl, _, payFromPool_eq_ok.2 ⟨_, rfl, _, hpay, rfl⟩, rfl⟩, htag⟩

/-- Four of the note of value five are left over at price one, and the change is
registered and withdrawn with value nine. -/
theorem change_of_four_withdrawn_as_nine :
    CommitmentsBind plainConfig.proofVerifier ∧ PurchaseSound plainConfig.proofVerifier lowValue ∧
      ¬ ∀ (s : State (U8Array 32 → ℕ)) (xs : List (Extrinsic (U8Array 32))),
        (history (apply plainConfig) s xs).Pairwise (OpensRemainder lowValue) := by
  refine ⟨plainVerifier_binds, plainVerifier_sound, fun hclaim => ?_⟩
  obtain ⟨s₁, s₂, h₁, h₂, htag⟩ := @change_withdrawn 9 (by decide)
  have hpairs := hclaim legacyNotes (changeRun 9)
  rw [changeRun, history_cons_ok h₁, history_cons_ok h₂, history_nil] at hpairs
  have hopens := List.pairwise_pair.1 hpairs
  have hchange : changeOutput lowValue legacyNotes
      (.purchaseRwa [] (purchaseWithChange (U8Array.ofNat 32 9)).encode) =
        some ⟨U8Array.ofNat 32 9, U8Array.ofNat 32 1, lowValue (U8Array.ofNat 32 5), 1⟩ := by
    rw [changeOutput, purchaseWithChange_decode]
    rfl
  have hopening : opening (.withdrawPrivate [] (withdrawalOf 9).encode) =
      some (U8Array.ofNat 32 1, 9) := by
    rw [opening, WithdrawInputs.decode_encode (by simp [withdrawalOf])]
    rfl
  have hvalue : (9 : UInt64) = lowValue (U8Array.ofNat 32 5) - 1 :=
    (hopens _ hchange _ ⟨hopening, htag⟩).2
  have hfive : lowValue (U8Array.ofNat 32 5) = 5 := lowValue_ofNat 5
  rw [hfive] at hvalue
  exact absurd hvalue (by decide)

/-- With an honest change the same run meets the assumptions. -/
theorem change_of_four_withdrawn_as_four :
    (history (apply plainConfig) legacyNotes (changeRun 4)).Pairwise (OpensRemainder lowValue) ↔
      (history (apply plainConfig) legacyNotes (changeRun 4)).Pairwise
        (HonestChange lowValue plainConfig) :=
  change_opens_to_remainder_iff plainVerifier_binds plainVerifier_sound _ _

end NullaRelay.ProofHub
