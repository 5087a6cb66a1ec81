import NullaRelay.Foundations.Transition
import NullaRelay.ScanProof.Deposit
import NullaRelay.ScanProof.Marks
import NullaRelay.ScanProof.NotePurchases

/-!
# What the unsigned ScanProof calls are bound to

The proof of a coin call and of a balance transfer is made for the hash of all
public inputs: no other inputs pass with it. The opening proof of a note call is
made for a string of 64, 80 or 112 bytes that leaves the beneficiary out: the
ownership and the access key commitment of a purchase, the destination and the
value of a withdrawal. A copy of such a call with another beneficiary passes.
-/

namespace NullaRelay.ScanProof

open NullaRelay.Frame

variable {A L : Type} {T : Config A L} {s s' : State L} {o : Origin A}

/-- The second call is the first with another beneficiary, everything else the same:
another commitment, destination or value in a note call, other public inputs where
the call carries them. -/
inductive Renames {R : ℕ} : Call R → Call R → Prop
  | purchaseRwa {c p n id tx oc oc' change} (hne : oc ≠ oc') :
      Renames (.purchaseRwa c p n id tx oc change) (.purchaseRwa c p n id tx oc' change)
  | purchaseAccess {c p n id tx ac ac' change} (hne : ac ≠ ac') :
      Renames (.purchaseAccess c p n id tx ac change) (.purchaseAccess c p n id tx ac' change)
  | withdrawPrivate {c n p dest dest' v v'} (hne : (dest, v) ≠ (dest', v')) :
      Renames (.withdrawPrivate c n p dest v) (.withdrawPrivate c n p dest' v')
  | submitProof {p rp pi pi' hints i i'} (h : ProofPublicInputs.decode pi = some i)
      (h' : ProofPublicInputs.decode pi' = some i') (hne : i ≠ i') :
      Renames (.submitProof p rp pi hints) (.submitProof p rp pi' hints)
  | purchaseCoin {pi pi' p g i i'} (h : CoinSpendPublic.decode pi = some i)
      (h' : CoinSpendPublic.decode pi' = some i') (hne : i ≠ i') :
      Renames (.purchaseCoin pi p g) (.purchaseCoin pi' p g)
  | purchaseAccessCoin {pi pi' p g i i'} (h : CoinSpendPublic.decode pi = some i)
      (h' : CoinSpendPublic.decode pi' = some i') (hne : i ≠ i') :
      Renames (.purchaseAccessCoin pi p g) (.purchaseAccessCoin pi' p g)
  | withdrawCoin {pi pi' p i i'} (h : CoinWithdrawPublic.decode pi = some i)
      (h' : CoinWithdrawPublic.decode pi' = some i') (hne : i ≠ i') :
      Renames (.withdrawCoin pi p) (.withdrawCoin pi' p)

/-- Each proof is valid for one context at most: the context of a one-of-many proof and
of a serial's proof, and, of a balance proof, the hash `piHash` of the public inputs. -/
structure ContextsBind (V : ProofVerify) (piHash : List UInt8 → U8Array 32) : Prop where
  oneOfMany : ∀ proof coins serial price change ctx coins' serial' price' change' ctx',
    V.verifyOneOfMany proof coins serial price change ctx = true →
    V.verifyOneOfMany proof coins' serial' price' change' ctx' = true → ctx = ctx'
  g1Pok : ∀ proof coin change ctx coin' change' ctx', V.verifyG1Pok coin change proof ctx = true →
    V.verifyG1Pok coin' change' proof ctx' = true → ctx = ctx'
  balance : ∀ proof pi pi', V.verify proof pi = true → V.verify proof pi' = true →
    piHash pi = piHash pi'

/-- The public inputs that a call carries. -/
def Call.publicInputs {R : ℕ} : Call R → Option (List UInt8)
  | .submitProof _ _ pi _ => some pi
  | .purchaseCoin pi _ _ => some pi
  | .withdrawCoin pi _ => some pi
  | .purchaseAccessCoin pi _ _ => some pi
  | _ => none

/-- The hash does not collide on the public inputs of the two calls. -/
def NoCollision {R : ℕ} (hash : List UInt8 → U8Array 32) (call call' : Call R) : Prop :=
  ∀ pi ∈ call.publicInputs, ∀ pi' ∈ call'.publicInputs, hash pi = hash pi' → pi = pi'

variable (T) in
/-- No copy of the unsigned call with another beneficiary is accepted in the same
state. -/
def BindsBeneficiary (piHash : List UInt8 → U8Array 32) (s : State L)
    (call : Call T.maxRangeProofSize) : Prop :=
  ∀ call', Renames call call' → NoCollision T.blake2_256 call call' →
    NoCollision piHash call call' → ¬ ∃ s', apply T s (.unsigned call') = .ok s'

variable (T s) in
/-- The pool can pay the amount to the bytes of an account. -/
def Payable (destination : List UInt8) (value : UInt64) : Prop :=
  destination.length = 32 ∧ ∃ dest, T.decodeAccount destination = some dest ∧
    (T.currency.transfer s.ledger T.poolAccount dest value.toNat .allowDeath).isSome

variable (T) in
/-- The calls that are bound to their beneficiaries: the ones that carry public
inputs, and a withdrawal whose proof opens no other value and whose pool can pay
nobody else. -/
def Bound (s : State L) : Call T.maxRangeProofSize → Prop
  | .purchaseRwa .. | .purchaseAccess .. => False
  | .withdrawPrivate c n p dest v => ∀ dest' v', (dest, v) ≠ (dest', v') →
      T.proofVerifier.verifyOpeningKnowledge v' c p (n.toList ++ c.toList) = true →
      ¬ Payable T s dest' v'
  | _ => True

/-- A purchase does not look at the ownership commitment, -/
theorem purchaseRwa_rename {c n id oc : U8Array 32} {p : List UInt8} {tx : U8Array 16}
    {change : Option (U8Array 32)} (h : purchaseRwa T s o c p n id tx oc change = .ok s')
    (oc' : U8Array 32) : ∃ s'', purchaseRwa T s o c p n id tx oc' change = .ok s'' := by
  obtain ⟨ho, hn, hc, hprice, hnew, hopen, t, ht, -⟩ := purchaseRwa_eq_ok.1 h
  exact ⟨_, purchaseRwa_eq_ok.2 ⟨ho, hn, hc, hprice, hnew, hopen, t, ht, rfl⟩⟩

/-- nor a purchase of access at the access key commitment. -/
theorem purchaseAccess_rename {c n id ac : U8Array 32} {p : List UInt8} {tx : U8Array 16}
    {change : Option (U8Array 32)} (h : purchaseAccess T s o c p n id tx ac change = .ok s')
    (ac' : U8Array 32) : ∃ s'', purchaseAccess T s o c p n id tx ac' change = .ok s'' := by
  obtain ⟨ho, hn, hc, cfg, hcfg, hprice, hnew, hopen, t, ht, u, hu, -⟩ :=
    purchaseAccess_eq_ok.1 h
  exact ⟨_, purchaseAccess_eq_ok.2 ⟨ho, hn, hc, cfg, hcfg, hprice, hnew, hopen, t, ht, u, hu, rfl⟩⟩

theorem exists_ne (a : U8Array 32) : ∃ b : U8Array 32, a ≠ b := by
  by_cases h : a = U8Array.zero 32
  · exact ⟨U8Array.ofNat 32 1, by rw [h]; decide⟩
  · exact ⟨_, h⟩

/-- The proof in a call that carries public inputs, with the context it is for. -/
theorem coin_proof_of_dispatch {call : Call T.maxRangeProofSize}
    (h : dispatch T s o call = .ok s') {pi p : List UInt8}
    (hcall : (∃ g, call = .purchaseCoin pi p g) ∨ (∃ g, call = .purchaseAccessCoin pi p g) ∨
      call = .withdrawCoin pi p) :
    ∃ coins serial price change, T.proofVerifier.verifyOneOfMany p coins serial price change
      (T.blake2_256 pi).toList = true := by
  rcases hcall with ⟨g, rfl⟩ | ⟨g, rfl⟩ | rfl
  · obtain ⟨-, inputs, -, -, -, -, t, ht, -⟩ := purchaseCoin_eq_ok.1 h
    obtain ⟨-, hproof, -⟩ := spendCoin_eq_ok.1 ht
    exact ⟨_, _, _, _, hproof⟩
  · obtain ⟨-, inputs, -, -, -, cfg, -, -, t, ht, -⟩ := purchaseAccessCoin_eq_ok.1 h
    obtain ⟨-, hproof, -⟩ := spendCoin_eq_ok.1 ht
    exact ⟨_, _, _, _, hproof⟩
  · obtain ⟨-, inputs, -, -, -, hproof, -⟩ := withdrawCoin_eq_ok.1 h
    exact ⟨_, _, _, _, hproof⟩

theorem balance_proof_of_dispatch {p pi : List UInt8} {rp : BoundedVec UInt8 T.maxRangeProofSize}
    {hints : BoundedVec UInt8 4096} (h : submitProof T s o p rp pi hints = .ok s') :
    T.proofVerifier.verify p pi = true := by
  obtain ⟨inputs, leaves, hcheck, -⟩ := submitProof_of_ok h
  exact hcheck.proved

/-- The copy of a withdrawal for another payable destination, or another value that
the proof opens, passes. -/
theorem withdrawPrivate_rename {c n : U8Array 32} {p dest dest' : List UInt8} {v v' : UInt64}
    (h : apply T s (.unsigned (.withdrawPrivate c n p dest v)) = .ok s')
    (hopen : T.proofVerifier.verifyOpeningKnowledge v' c p (n.toList ++ c.toList) = true)
    (hpay : Payable T s dest' v') :
    ∃ s'', apply T s (.unsigned (.withdrawPrivate c n p dest' v')) = .ok s'' := by
  obtain ⟨hvalid, hcall⟩ := unsigned_eq_ok.1 h
  obtain ⟨hfresh, hindexed, hlen, -⟩ := validateWithdrawPrivate_ok.1 hvalid
  obtain ⟨hdest, account, haccount, hledger⟩ := hpay
  obtain ⟨ledger, hledger⟩ := Option.isSome_iff_exists.1 hledger
  exact ⟨_, unsigned_eq_ok.2 ⟨validateWithdrawPrivate_ok.2 ⟨hfresh, hindexed, hlen, hopen⟩,
    withdrawPrivate_eq_ok.2 ⟨rfl, hindexed, hfresh, hopen, hdest, account, haccount, ledger,
      hledger, rfl⟩⟩⟩

/-- Inputs that a proof was accepted for twice are the same. -/
theorem publicInputs_eq {piHash : List UInt8 → U8Array 32}
    (hbind : ContextsBind T.proofVerifier piHash) {call call' : Call T.maxRangeProofSize}
    {t t' : State L} (h : dispatch T s o call = .ok t) (h' : dispatch T s o call' = .ok t')
    (hcoll : NoCollision T.blake2_256 call call') (hcoll' : NoCollision piHash call call')
    (hrename : Renames call call') {pi pi' : List UInt8} (hpi : call.publicInputs = some pi)
    (hpi' : call'.publicInputs = some pi') : pi = pi' := by
  have hcoin {p : List UInt8} {coins serial price change coins' serial' price' change'}
      (hv : T.proofVerifier.verifyOneOfMany p coins serial price change
        (T.blake2_256 pi).toList = true)
      (hv' : T.proofVerifier.verifyOneOfMany p coins' serial' price' change'
        (T.blake2_256 pi').toList = true) : pi = pi' :=
    hcoll pi hpi pi' hpi' (Subtype.ext (hbind.oneOfMany _ _ _ _ _ _ _ _ _ _ _ hv hv'))
  cases hrename with
  | submitProof =>
      cases hpi
      cases hpi'
      exact hcoll' _ rfl _ rfl (hbind.balance _ _ _ (balance_proof_of_dispatch h)
        (balance_proof_of_dispatch h'))
  | purchaseCoin =>
      cases hpi
      cases hpi'
      obtain ⟨_, _, _, _, hv⟩ := coin_proof_of_dispatch h (.inl ⟨_, rfl⟩)
      obtain ⟨_, _, _, _, hv'⟩ := coin_proof_of_dispatch h' (.inl ⟨_, rfl⟩)
      exact hcoin hv hv'
  | purchaseAccessCoin =>
      cases hpi
      cases hpi'
      obtain ⟨_, _, _, _, hv⟩ := coin_proof_of_dispatch h (.inr (.inl ⟨_, rfl⟩))
      obtain ⟨_, _, _, _, hv'⟩ := coin_proof_of_dispatch h' (.inr (.inl ⟨_, rfl⟩))
      exact hcoin hv hv'
  | withdrawCoin =>
      cases hpi
      cases hpi'
      obtain ⟨_, _, _, _, hv⟩ := coin_proof_of_dispatch h (.inr (.inr rfl))
      obtain ⟨_, _, _, _, hv'⟩ := coin_proof_of_dispatch h' (.inr (.inr rfl))
      exact hcoin hv hv'
  | _ => cases hpi

/-- An accepted unsigned call is bound to its beneficiaries exactly when it is
`Bound`. -/
theorem bindsBeneficiary_iff_bound {piHash : List UInt8 → U8Array 32}
    (hbind : ContextsBind T.proofVerifier piHash) {call : Call T.maxRangeProofSize}
    (h : apply T s (.unsigned call) = .ok s') :
    BindsBeneficiary T piHash s call ↔ Bound T s call := by
  constructor
  · intro hbinds
    cases call with
    | purchaseRwa c p n id tx oc change =>
        obtain ⟨oc', hne⟩ := exists_ne oc
        obtain ⟨hvalid, hcall⟩ := unsigned_eq_ok.1 h
        obtain ⟨s'', h'⟩ := purchaseRwa_rename hcall oc'
        exact hbinds _ (.purchaseRwa hne) (fun pi hpi => nomatch hpi) (fun pi hpi => nomatch hpi)
          ⟨s'', unsigned_eq_ok.2 ⟨hvalid, h'⟩⟩
    | purchaseAccess c p n id tx ac change =>
        obtain ⟨ac', hne⟩ := exists_ne ac
        obtain ⟨hvalid, hcall⟩ := unsigned_eq_ok.1 h
        obtain ⟨s'', h'⟩ := purchaseAccess_rename hcall ac'
        exact hbinds _ (.purchaseAccess hne) (fun pi hpi => nomatch hpi)
          (fun pi hpi => nomatch hpi) ⟨s'', unsigned_eq_ok.2 ⟨hvalid, h'⟩⟩
    | withdrawPrivate c n p dest v =>
        intro dest' v' hne hopen hpay
        exact hbinds _ (.withdrawPrivate hne) (fun pi hpi => nomatch hpi)
          (fun pi hpi => nomatch hpi) (withdrawPrivate_rename h hopen hpay)
    | _ => trivial
  · rintro hbound call' hrename hcoll hcoll' ⟨s'', h'⟩
    have hcall := (unsigned_eq_ok.1 h).2
    have hcall' := (unsigned_eq_ok.1 h').2
    have hsame {pi pi'} := @publicInputs_eq _ _ _ _ _ _ hbind _ _ _ _ hcall hcall' hcoll hcoll'
      hrename pi pi'
    cases hrename with
    | purchaseRwa => exact hbound
    | purchaseAccess => exact hbound
    | withdrawPrivate hne =>
        obtain ⟨-, -, -, hopen, hdest, account, haccount, ledger, hledger, -⟩ :=
          withdrawPrivate_eq_ok.1 hcall'
        exact hbound _ _ hne hopen ⟨hdest, account, haccount, by rw [hledger]; rfl⟩
    | submitProof hdec hdec' hne | purchaseCoin hdec hdec' hne
    | purchaseAccessCoin hdec hdec' hne | withdrawCoin hdec hdec' hne =>
        rw [hsame rfl rfl] at hdec
        exact hne (Option.some.inj (hdec.symm.trans hdec'))

/-! Proofs that name their contexts, and the purchase of an asset with a deposited note. -/

section Example

open Transition

/-- The binding in an opening proof: its length in the first byte, then its bytes, filled
up with zeros. -/
def carriedBinding (proof : List UInt8) : List UInt8 :=
  (proof.tail ++ List.replicate 49 0).take (proof.headD 0).toNat

/-- The verifier of the relations over vectors that also asks each proof for its context. -/
noncomputable def contextVerifier : ProofVerify :=
  { relationVerifier vectorPrimitives with
    verify := fun proof pi => (relationVerifier vectorPrimitives).verify proof pi &&
      proof = (U8Array.padded 32 pi).toList
    verifyOpeningKnowledge := fun value c proof binding =>
      (relationVerifier vectorPrimitives).verifyOpeningKnowledge value c proof binding &&
        binding = carriedBinding proof
    verifyOneOfMany := fun proof coins serial price change ctx =>
      (relationVerifier vectorPrimitives).verifyOneOfMany proof coins serial price change ctx &&
        proof = ctx
    verifyG1Pok := fun coin change proof ctx =>
      (relationVerifier vectorPrimitives).verifyG1Pok coin change proof ctx && proof = ctx }

noncomputable def contextConfig : Config (U8Array 32) (U8Array 32 → ℕ) :=
  vectorConfig.withVerifier contextVerifier

theorem context_verifyOpeningKnowledge {value : UInt64} {c : U8Array 32}
    {proof binding : List UInt8} :
    contextVerifier.verifyOpeningKnowledge value c proof binding = true ↔
      (proof.length = 64 ∧ OpensTo vectorPrimitives c (Scalar.ofU64 value)) ∧
        binding = carriedBinding proof := by
  simp [contextVerifier]

theorem contextVerifier_binds : ContextsBind contextVerifier (U8Array.padded 32) where
  oneOfMany _ _ _ _ _ _ _ _ _ _ _ h h' :=
    (of_decide_eq_true (Bool.and_eq_true_iff.1 h).2).symm.trans
      (of_decide_eq_true (Bool.and_eq_true_iff.1 h').2)
  g1Pok _ _ _ _ _ _ _ h h' :=
    (of_decide_eq_true (Bool.and_eq_true_iff.1 h).2).symm.trans
      (of_decide_eq_true (Bool.and_eq_true_iff.1 h').2)
  balance _ _ _ h h' :=
    Subtype.ext ((of_decide_eq_true (Bool.and_eq_true_iff.1 h).2).symm.trans
      (of_decide_eq_true (Bool.and_eq_true_iff.1 h').2))

/-- An opening proof is valid for one binding at most. -/
def OpeningsBind (V : ProofVerify) : Prop :=
  ∀ proof v c b v' c' b', V.verifyOpeningKnowledge v c proof b = true →
    V.verifyOpeningKnowledge v' c' proof b' = true → b = b'

theorem contextVerifier_openings : OpeningsBind contextVerifier :=
  fun _ _ _ _ _ _ _ h h' => (context_verifyOpeningKnowledge.1 h).2.trans
    (context_verifyOpeningKnowledge.1 h').2.symm

/-- A note of value one. -/
def noteOnSale : U8Array 32 := encodePoint 0 1 5

/-- The note is deposited, and the asset zero gets the price one. -/
def saleRun : List (Extrinsic (U8Array 32) contextConfig.maxRangeProofSize) :=
  [.signed (U8Array.ofNat 32 2) (.depositPublic noteOnSale.toList (depositBytes 1)
      BoundedVec.empty),
    .root (.setRwaPrice (U8Array.zero 32) 1)]

/-- The state in which the asset is sold. -/
noncomputable def saleState : State (U8Array 32 → ℕ) :=
  run (apply contextConfig) (genesis fun _ => 100) saleRun

theorem saleState_spec : (saleState.commitmentIndex noteOnSale).isSome ∧
    saleState.rwaPrices (U8Array.zero 32) = 1 ∧
    saleState.nullifierUsed (U8Array.zero 32) = false := by
  obtain ⟨s₁, hs₁, -, hused, -, hindex⟩ := @vector_depositPublic_ok
    (genesis fun _ => 100) (U8Array.ofNat 32 2) 1 5 1 (by norm_num) (by norm_num) rfl
    (by decide) (by decide)
  have h₁ : apply contextConfig (genesis fun _ => 100) (.signed (U8Array.ofNat 32 2)
      (.depositPublic noteOnSale.toList (depositBytes 1) BoundedVec.empty)) = .ok s₁ :=
    apply_eq_ok.2 ⟨nofun, hs₁⟩
  obtain ⟨s₂, h₂, hprice, hindex₂, hused₂⟩ : ∃ s₂,
      apply contextConfig s₁ (.root (.setRwaPrice (U8Array.zero 32) 1)) = .ok s₂ ∧
        s₂.rwaPrices (U8Array.zero 32) = 1 ∧ s₂.commitmentIndex = s₁.commitmentIndex ∧
        s₂.nullifierUsed = s₁.nullifierUsed :=
    ⟨_, rfl, by simp [State.depositEvent], rfl, rfl⟩
  rw [saleState, saleRun, run_cons, next_ok h₁, run_cons, next_ok h₂, run_nil]
  refine ⟨?_, hprice, ?_⟩
  · rw [hindex₂, hindex, noteOnSale]
    simp
  · rw [hused₂, hused]
    rfl

/-- The purchase of the asset with the note. -/
def notePurchase : Call contextConfig.maxRangeProofSize :=
  .purchaseRwa noteOnSale (80 :: List.replicate 63 0) (U8Array.zero 32) (U8Array.zero 32)
    (U8Array.zero 16) (U8Array.zero 32) none

theorem notePurchase_accepted :
    ∃ s', apply contextConfig saleState (.unsigned notePurchase) = .ok s' := by
  obtain ⟨hindexed, hprice, hused⟩ := saleState_spec
  have hvalue : OpensTo vectorPrimitives noteOnSale (Scalar.ofU64 1) := by
    refine ⟨_, congrArg some (decodePoint_encodePoint (by norm_num) (by norm_num) (by norm_num)),
      ((5 : ℕ) : Scalar), ?_⟩
    simp [Scalar.ofU64]
  have hbinding : purchaseBinding (U8Array.zero 32) (U8Array.zero 32) (U8Array.zero 16) none =
      carriedBinding (80 :: List.replicate 63 0) := by decide
  have hopen : OpensAt contextConfig noteOnSale (80 :: List.replicate 63 0) (U8Array.zero 32)
      (U8Array.zero 32) (U8Array.zero 16) (saleState.rwaPrices (U8Array.zero 32)) none := by
    rw [hprice]
    exact ⟨_, rfl, by simp, context_verifyOpeningKnowledge.2 ⟨⟨by simp, hvalue⟩, hbinding⟩⟩
  have hcall : purchaseRwa contextConfig saleState .none noteOnSale (80 :: List.replicate 63 0)
      (U8Array.zero 32) (U8Array.zero 32) (U8Array.zero 16) (U8Array.zero 32) none = .ok _ :=
    purchaseRwa_eq_ok.2 ⟨rfl, hused, hindexed, by rw [hprice]; decide, by simp, hopen, _, rfl, rfl⟩
  exact ⟨_, unsigned_eq_ok.2 ⟨validatePurchaseRwa_of_ok hcall, hcall⟩⟩

/-- Of a purchase that is accepted after a run the copy for another owner is accepted. -/
theorem purchase_copied_for_another :
    ContextsBind contextVerifier (U8Array.padded 32) ∧ OpeningsBind contextVerifier ∧
      ¬ ∀ (xs : List (Extrinsic (U8Array 32) contextConfig.maxRangeProofSize)) call,
        (∃ s', apply contextConfig (run (apply contextConfig) (genesis fun _ => 100) xs)
          (.unsigned call) = .ok s') →
        BindsBeneficiary contextConfig (U8Array.padded 32)
          (run (apply contextConfig) (genesis fun _ => 100) xs) call := by
  refine ⟨contextVerifier_binds, contextVerifier_openings, fun hclaim => ?_⟩
  obtain ⟨s', hs'⟩ := notePurchase_accepted
  obtain ⟨hvalid, hcall⟩ := unsigned_eq_ok.1 hs'
  have hne : U8Array.zero 32 ≠ U8Array.ofNat 32 1 := by decide
  obtain ⟨s'', h'⟩ := purchaseRwa_rename hcall (U8Array.ofNat 32 1)
  exact hclaim saleRun notePurchase ⟨s', hs'⟩ _ (.purchaseRwa hne)
    (fun pi hpi => nomatch hpi) (fun pi hpi => nomatch hpi)
    ⟨s'', unsigned_eq_ok.2 ⟨hvalid, h'⟩⟩

theorem notePurchase_bound_iff : ∃ s',
    apply contextConfig saleState (.unsigned notePurchase) = .ok s' ∧
      (BindsBeneficiary contextConfig (U8Array.padded 32) saleState notePurchase ↔
        Bound contextConfig saleState notePurchase) := by
  obtain ⟨s', hs'⟩ := notePurchase_accepted
  exact ⟨s', hs', bindsBeneficiary_iff_bound contextVerifier_binds hs'⟩

end Example

end NullaRelay.ScanProof
