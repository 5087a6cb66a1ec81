import NullaRelay.ProofHub.Accepting

/-!
# What the unsigned calls are bound to

Whoever sees an unsigned call can submit a copy of it that names another
beneficiary. The purchases and withdrawals of both lanes are signed over all bytes
of their public inputs, so that no copy passes. A relist carries no signature:
its openings are revealed by the call, and every copy that renames its outputs
passes as well.
-/

namespace NullaRelay.ProofHub

open NullaRelay.Frame V2 LittleEndian

variable {P : Verifier.Primitives} {A L : Type} {T : Config A L} {s s' : State L}
  {x : Extrinsic A}

/-- The fields of a v1 purchase that say who benefits. -/
def RwaPurchaseInputs.withBeneficiary (i j : RwaPurchaseInputs) : RwaPurchaseInputs :=
  { i with
    ownershipCommitment := j.ownershipCommitment
    destination := j.destination
    changeCommitment := j.changeCommitment
    changeSpendTag := j.changeSpendTag }

def WithdrawInputs.withBeneficiary (i j : WithdrawInputs) : WithdrawInputs :=
  { i with destination := j.destination }

def SpendPublicV2.withBeneficiary (i j : SpendPublicV2) : SpendPublicV2 :=
  { i with
    ownershipCommitment := j.ownershipCommitment
    changeLeaf := j.changeLeaf
    changePkd := j.changePkd }

def WithdrawPublicV2.withBeneficiary (i j : WithdrawPublicV2) : WithdrawPublicV2 :=
  { i with destination := j.destination }

def RelistInputs.withBeneficiary (i j : RelistInputs) : RelistInputs :=
  { i with
    paymentCommitment := j.paymentCommitment
    paymentBlinding := j.paymentBlinding
    paymentSpendTag := j.paymentSpendTag
    newOwnershipCommitment := j.newOwnershipCommitment
    newTxId := j.newTxId
    changeCommitment := j.changeCommitment
    changeSpendTag := j.changeSpendTag }

/-- The second call is the first with other beneficiaries: the inputs differ, but in
these fields only, and proofs and authorizations are the same bytes. -/
inductive Renames : Call → Call → Prop
  | purchaseRwa {proof pi pi' i i'} (h : RwaPurchaseInputs.decode pi = some i)
      (h' : RwaPurchaseInputs.decode pi' = some i') (hne : i ≠ i')
      (hrename : i' = i.withBeneficiary i') :
      Renames (.purchaseRwa proof pi) (.purchaseRwa proof pi')
  | purchaseAccess {proof pi pi' i i'} (h : RwaPurchaseInputs.decode pi = some i)
      (h' : RwaPurchaseInputs.decode pi' = some i') (hne : i ≠ i')
      (hrename : i' = i.withBeneficiary i') :
      Renames (.purchaseAccess proof pi) (.purchaseAccess proof pi')
  | withdrawPrivate {proof pi pi' i i'} (h : WithdrawInputs.decode pi = some i)
      (h' : WithdrawInputs.decode pi' = some i') (hne : i ≠ i')
      (hrename : i' = i.withBeneficiary i') :
      Renames (.withdrawPrivate proof pi) (.withdrawPrivate proof pi')
  | purchaseRwaV2 {auth pi pi' proof i i'} (h : SpendPublicV2.decode pi = some i)
      (h' : SpendPublicV2.decode pi' = some i') (hne : i ≠ i')
      (hrename : i' = i.withBeneficiary i') :
      Renames (.purchaseRwaV2 auth pi proof) (.purchaseRwaV2 auth pi' proof)
  | purchaseAccessV2 {auth pi pi' proof i i'} (h : SpendPublicV2.decode pi = some i)
      (h' : SpendPublicV2.decode pi' = some i') (hne : i ≠ i')
      (hrename : i' = i.withBeneficiary i') :
      Renames (.purchaseAccessV2 auth pi proof) (.purchaseAccessV2 auth pi' proof)
  | withdrawV2 {auth pi pi' proof i i'} (h : WithdrawPublicV2.decode pi = some i)
      (h' : WithdrawPublicV2.decode pi' = some i') (hne : i ≠ i')
      (hrename : i' = i.withBeneficiary i') :
      Renames (.withdrawV2 auth pi proof) (.withdrawV2 auth pi' proof)
  | relistPrivate {i i'} (hne : i ≠ i') (hrename : i' = i.withBeneficiary i') :
      Renames (.relistPrivate i) (.relistPrivate i')

/-- The message that a call signs the hash of. -/
def Call.signedMessage : Call → Option (List UInt8)
  | .purchaseRwa _ pi | .purchaseAccess _ pi => some (byteString "nulla_purchase_v1" ++ pi)
  | .withdrawPrivate _ pi => some (byteString "nulla_withdrawal_v1" ++ pi)
  | .purchaseRwaV2 _ pi _ | .purchaseAccessV2 _ pi _ =>
      some (byteString "nulla_spend_auth_v2" ++ pi)
  | .withdrawV2 _ pi _ => some (byteString "nulla_withdraw_auth_v2" ++ pi)
  | _ => none

/-- The key and signature bytes of a call. -/
def Call.auth : Call → List UInt8
  | .purchaseRwa auth _ | .purchaseAccess auth _ | .withdrawPrivate auth _
  | .purchaseRwaV2 auth _ _ | .purchaseAccessV2 auth _ _ | .withdrawV2 auth _ _ => auth
  | _ => []

variable (P) in
/-- A signature verifies for at most one message. -/
def SignaturesBind : Prop :=
  ∀ pk sig m m', P.mlDsaVerify pk m sig = true → P.mlDsaVerify pk m' sig = true → m = m'

variable (P) in
/-- The hash does not collide on what the two calls sign. -/
def NoCollision (call call' : Call) : Prop :=
  ∀ m ∈ call.signedMessage, ∀ m' ∈ call'.signedMessage, P.blake3 m = P.blake3 m' → m = m'

variable (P T s x) in
/-- No copy of the call that renames its beneficiaries is accepted in the same
state. -/
def BindsBeneficiary : Prop :=
  ∀ call', Renames x.2 call' → NoCollision P x.2 call' →
    ¬ ∃ s', apply T s (x.1, call') = .ok s'

/-- An accepted call shows a signature of what it signs. -/
theorem signed_of_apply (hT : T.proofVerifier = runtimeProofVerifier P)
    (h : apply T s x = .ok s') {m : List UInt8} (hm : x.2.signedMessage = some m) :
    P.mlDsaVerify (x.2.auth.take Verifier.dilithiumPkLen) (P.blake3 m)
      (x.2.auth.drop Verifier.dilithiumPkLen) = true := by
  obtain ⟨o, call⟩ := x
  cases call with
  | purchaseRwa p pi =>
      obtain ⟨-, i, changeRp, hspend, -⟩ := purchaseRwa_eq_ok.1 h
      cases hm
      have hsigned := hspend.signed
      rw [hT] at hsigned
      exact (Verifier.verifySigned_eq_true.1 (Verifier.verifySigned_of_verifyTagged hsigned)).2
  | purchaseAccess p pi =>
      obtain ⟨-, i, cfg, changeRp, -, hspend, -⟩ := purchaseAccess_eq_ok.1 h
      cases hm
      have hsigned := hspend.signed
      rw [hT] at hsigned
      exact (Verifier.verifySigned_eq_true.1 (Verifier.verifySigned_of_verifyTagged hsigned)).2
  | withdrawPrivate p pi =>
      obtain ⟨-, i, -, -, hsigned, -⟩ := withdrawPrivate_eq_ok.1 h
      cases hm
      rw [hT] at hsigned
      exact (Verifier.verifySigned_eq_true.1 (Verifier.verifySigned_of_verifyTagged hsigned)).2
  | purchaseRwaV2 auth pi p =>
      obtain ⟨-, i, -, -, hspend, -⟩ := purchaseRwaV2_eq_ok.1 h
      cases hm
      have hsigned := hspend.signed
      rw [hT] at hsigned
      exact (Verifier.verifySigned_eq_true.1 hsigned).2
  | purchaseAccessV2 auth pi p =>
      obtain ⟨-, i, cfg, -, -, -, hspend, -⟩ := purchaseAccessV2_eq_ok.1 h
      cases hm
      have hsigned := hspend.signed
      rw [hT] at hsigned
      exact (Verifier.verifySigned_eq_true.1 hsigned).2
  | withdrawV2 auth pi p =>
      obtain ⟨-, i, -, hspend, -⟩ := withdrawV2_eq_ok.1 h
      cases hm
      have hsigned := hspend.signed
      rw [hT] at hsigned
      exact (Verifier.verifySigned_eq_true.1 hsigned).2
  | _ => cases hm

/-- Calls that differ only in signed inputs: equal messages mean equal inputs. -/
theorem Renames.cases_signed {call call' : Call} (h : Renames call call') :
    (∃ i, call = .relistPrivate i) ∨ call.auth = call'.auth ∧
      ∃ m m', call.signedMessage = some m ∧ call'.signedMessage = some m' ∧ m ≠ m' := by
  cases h with
  | relistPrivate hne hrename => exact .inl ⟨_, rfl⟩
  | _ hdec hdec' hne hrename =>
      refine .inr ⟨rfl, _, _, rfl, rfl, fun hm => hne ?_⟩
      rw [List.append_cancel_left hm] at hdec
      exact Option.some.inj (hdec.symm.trans hdec')

/-- A relist does not look at the new record's commitment. -/
theorem relistPrivate_rename {o : Origin A} {i : RelistInputs}
    (h : relistPrivate T s o i = .ok s') (oc : U8Array 32) :
    ∃ s'', relistPrivate T s o { i with newOwnershipCommitment := oc } = .ok s'' := by
  obtain ⟨ho, change, hrelist, s₁, leaves, hins, -⟩ := relistPrivate_eq_ok.1 h
  have hrelist' : Relistable T s { i with newOwnershipCommitment := oc } change :=
    ⟨hrelist.owned, hrelist.unsold, hrelist.unused, hrelist.opened, hrelist.covered,
      hrelist.balanced, hrelist.paid⟩
  exact ⟨_, relistPrivate_eq_ok.2 ⟨ho, change, hrelist', s₁, leaves, hins, rfl⟩⟩

/-- An accepted call is bound to its beneficiaries exactly when it is not a
relist. -/
theorem bindsBeneficiary_iff_not_relist (hT : T.proofVerifier = runtimeProofVerifier P)
    (hsig : SignaturesBind P) (h : apply T s x = .ok s') :
    BindsBeneficiary P T s x ↔ ∀ i, x.2 ≠ .relistPrivate i := by
  constructor
  · rintro hbinds i hx
    obtain ⟨o, call⟩ := x
    obtain rfl : call = .relistPrivate i := hx
    obtain ⟨oc, hoc⟩ : ∃ oc, i.newOwnershipCommitment ≠ oc := by
      by_cases hzero : i.newOwnershipCommitment = U8Array.zero 32
      · exact ⟨U8Array.ofNat 32 1, by rw [hzero]; decide⟩
      · exact ⟨_, hzero⟩
    refine hbinds (.relistPrivate { i with newOwnershipCommitment := oc }) ?_ ?_
      (relistPrivate_rename h oc)
    · exact .relistPrivate (fun heq => hoc (congrArg RelistInputs.newOwnershipCommitment heq)) rfl
    · rintro m ⟨⟩
  · rintro hnot call' hrename hcoll ⟨s'', h'⟩
    rcases hrename.cases_signed with ⟨i, hx⟩ | ⟨hauth, m, m', hm, hm', hne⟩
    · exact hnot i hx
    · have hv := signed_of_apply hT h hm
      have hv' := signed_of_apply hT h' hm'
      rw [hauth] at hv
      exact hne (hcoll m hm m' hm' (hsig _ _ _ _ hv hv'))

/-- A signature scheme in which a signature begins with the message, and a hash that
keeps the last 32 bytes. -/
def signingPrimitives : Verifier.Primitives :=
  { acceptingPrimitives tailHash with
    mlDsaVerify := fun _ m sig => sig.take 32 = m.toList }

def signingConfig : Config (U8Array 32) (U8Array 32 → ℕ) :=
  { acceptingConfig tailHash with proofVerifier := runtimeProofVerifier signingPrimitives }

theorem signingPrimitives_bind : SignaturesBind signingPrimitives := by
  intro pk sig m m' h h'
  have hm : sig.take 32 = m.toList := of_decide_eq_true h
  have hm' : sig.take 32 = m'.toList := of_decide_eq_true h'
  exact Subtype.ext (hm.symm.trans hm')

/-- An ownership record and a buyer's note, with their openings. -/
def relistStorage : State (U8Array 32 → ℕ) :=
  { genesis tenEach with
    ownershipCommitments := fun t =>
      if t = U8Array.zero 16 then some (U8Array.ofNat 32 3) else none
    spendTagCommitments := fun t =>
      if t = U8Array.zero 32 then some (U8Array.ofNat 32 1) else none }

/-- The relist of the record for the buyer's whole note. -/
def wholeRelist : RelistInputs where
  oldTxId := U8Array.zero 16
  rwaId := U8Array.zero 32
  ownershipBlinding := U8Array.ofNat 32 3
  newBuyerSpendTag := U8Array.zero 32
  price := 5
  paymentCommitment := U8Array.ofNat 32 2
  paymentSpendTag := U8Array.ofNat 32 2
  changeCommitment := none
  changeSpendTag := none
  newOwnershipCommitment := U8Array.ofNat 32 4
  newTxId := U8Array.ofNat 16 1
  buyerValue := 5
  buyerBlinding := U8Array.ofNat 32 1
  paymentBlinding := U8Array.ofNat 32 2
  changeValue := none
  changeBlinding := none

theorem wholeRelist_succeeds :
    ∃ s', apply signingConfig relistStorage (.none, .relistPrivate wholeRelist) = .ok s' := by
  have hopen (b : U8Array 32) : signingConfig.proofVerifier.verifyCommitment 5 b b = true :=
    @tailHash_verifyCommitment signingPrimitives rfl 5 b
  have hrelist : Relistable signingConfig relistStorage wholeRelist none :=
    { owned := congrArg some (tailHash_append _ (U8Array.ofNat 32 3)).symm
      unsold := rfl
      unused := rfl
      opened := ⟨U8Array.ofNat 32 1, rfl, hopen _⟩
      covered := by decide
      balanced := rfl
      paid := hopen _ }
  exact ⟨_, relistPrivate_eq_ok.2 ⟨rfl, none, hrelist, _, _, doInsertNote_eq_some.2 ⟨rfl, rfl, rfl⟩,
    rfl⟩⟩

/-- Of an accepted relist a copy with another new owner is accepted. -/
theorem relist_copied_for_another :
    SignaturesBind signingPrimitives ∧
      ¬ ∀ (s : State (U8Array 32 → ℕ)) (x : Extrinsic (U8Array 32)),
        (∃ s', apply signingConfig s x = .ok s') →
          BindsBeneficiary signingPrimitives signingConfig s x := by
  refine ⟨signingPrimitives_bind, fun hclaim => ?_⟩
  obtain ⟨s', hs'⟩ := wholeRelist_succeeds
  have hne : wholeRelist ≠ { wholeRelist with newOwnershipCommitment := U8Array.ofNat 32 9 } :=
    fun heq => absurd (congrArg RelistInputs.newOwnershipCommitment heq) (by decide)
  refine hclaim relistStorage (.none, .relistPrivate wholeRelist) ⟨s', hs'⟩ _
    (.relistPrivate hne rfl) ?_ (relistPrivate_rename hs' _)
  rintro m ⟨⟩

theorem wholeRelist_not_bound : ∃ s', apply signingConfig relistStorage
      (.none, .relistPrivate wholeRelist) = .ok s' ∧
    (BindsBeneficiary signingPrimitives signingConfig relistStorage
        (.none, .relistPrivate wholeRelist) ↔
      ∀ i, Call.relistPrivate wholeRelist ≠ .relistPrivate i) := by
  obtain ⟨s', hs'⟩ := wholeRelist_succeeds
  exact ⟨s', hs', bindsBeneficiary_iff_not_relist rfl signingPrimitives_bind hs'⟩

end NullaRelay.ProofHub
