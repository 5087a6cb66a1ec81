import NullaRelay.ProofHub.LeafTree

/-!
# ProofHub under a verifier that accepts

The pallet over primitives that accept every signature and every proof, with
balances as its currency. What is left of the calls are the pallet's own checks:
the lemmas say that a v2 call with a fresh nullifier, an anchored root and a new
leaf goes through.
-/

namespace NullaRelay.ProofHub

open NullaRelay.Frame V2 LittleEndian Transition

/-- Primitives that accept, over a hash function. -/
def acceptingPrimitives (blake3 : List UInt8 → U8Array 32) : Verifier.Primitives where
  blake3
  mlDsaVerify _ _ _ := true
  verifyPurchaseAir _ _ := true
  verifyDepositV2Air _ _ _ := true
  verifySpendAir _ _ := true

/-- The pallet over these primitives, with accounts of 32 bytes. -/
def acceptingConfig (blake3 : List UInt8 → U8Array 32) :
    Config (U8Array 32) (U8Array 32 → ℕ) where
  proofVerifier := runtimeProofVerifier (acceptingPrimitives blake3)
  currency := balances
  poolAccount := U8Array.zero 32
  decodeAccount := copyFromSlice 32
  blake2_256 _ := U8Array.zero 32
  blake3

/-- The pallet over these primitives and a constant hash. -/
abbrev constantConfig : Config (U8Array 32) (U8Array 32 → ℕ) :=
  acceptingConfig fun _ => U8Array.zero 32

/-- A hash that keeps the last 32 bytes: it opens to whatever string comes last. -/
def tailHash (bytes : List UInt8) : U8Array 32 :=
  U8Array.ofNat 32 (leNat (bytes.drop (bytes.length - 32)))

theorem tailHash_append (bytes : List UInt8) (last : U8Array 32) :
    tailHash (bytes ++ last.toList) = last := by
  have hlen : (bytes ++ last.toList).length - 32 = bytes.length := by simp
  rw [tailHash, hlen, List.drop_left]
  exact U8Array.toNat_inj (U8Array.toNat_ofNat last.toNat_lt)

/-- Under this hash a commitment is its blinding. -/
theorem tailHash_verifyCommitment {P : Verifier.Primitives} (h : P.blake3 = tailHash)
    (v : UInt64) (b : U8Array 32) : Verifier.verifyCommitment P v b b = true := by
  refine decide_eq_true ?_
  rw [Verifier.blake3Commitment, h]
  exact tailHash_append _ _

/-- A key with a signature. -/
@[irreducible] def anyAuth : List UInt8 := List.replicate 3732 0

variable {blake3 : List UInt8 → U8Array 32} {s : State (U8Array 32 → ℕ)}
  {leaves : List (U8Array 32)}

theorem anyAuth_length : anyAuth.length = 3732 := by
  rw [anyAuth, List.length_replicate]

theorem accepting_verifySigned (domain : String) (pi : List UInt8) :
    Verifier.verifySigned (acceptingPrimitives blake3) domain anyAuth pi = true :=
  Verifier.verifySigned_eq_true.2 ⟨anyAuth_length, rfl⟩

theorem accepting_spendable {pi p : List UInt8} {root nf : U8Array 32} {x : UInt64}
    {cl cp : U8Array 32} {withdraw : Bool} (hfresh : s.nullifierUsed nf = false)
    (hroot : s.V2RootAnchored root) :
    Spendable (acceptingConfig blake3) s anyAuth pi p root nf x cl cp withdraw where
  fresh := hfresh
  anchored := hroot
  signed := accepting_verifySigned _ pi
  length := by
    rw [anyAuth_length]
    norm_num
  proved := rfl

variable (htree : KeepsTree (merkleHash2 (poseidonHashes blake3)) s leaves)

include htree

theorem accepting_v2Insert {leaf : U8Array 32} (hnew : leaf ∉ leaves)
    (hroom : leaves.length < 2 ^ merkleDepth) :
    ∃ s', v2Insert (acceptingConfig blake3) s leaf = .ok s' := by
  obtain ⟨⟨t, newRoot⟩, hins⟩ := v2InsertLeaf_isSome htree.holds hroom leaf
  exact ⟨_, v2Insert_eq_ok.2 ⟨(htree.indexed leaf).2 hnew, t, newRoot, hins, rfl⟩⟩

/-- A deposit of a new leaf by an account that can pay. -/
theorem accepting_depositV2 {who leaf : U8Array 32} {amount : UInt64}
    (hbal : amount.toNat ≤ s.ledger who) (hnew : leaf ∉ leaves)
    (hroom : leaves.length < 2 ^ merkleDepth) :
    ∃ s', apply (acceptingConfig blake3) s
        (.signed who, .depositV2 leaf amount BoundedVec.empty BoundedVec.empty) = .ok s' ∧
      KeepsTree (merkleHash2 (poseidonHashes blake3)) s' (leaves ++ [leaf]) ∧
      Effect (acceptingConfig blake3) s s' { leaf := some leaf } ∧
      s'.ledger = moveBalance s.ledger who (U8Array.zero 32) amount.toNat := by
  have hpay := balances_transfer_of_le hbal (U8Array.zero 32) .keepAlive
  have htree' : KeepsTree (merkleHash2 (poseidonHashes blake3))
      { s with ledger := moveBalance s.ledger who (U8Array.zero 32) amount.toNat } leaves :=
    ⟨htree.holds, htree.indexed, htree.current, htree.recent⟩
  obtain ⟨s₁, hins⟩ := accepting_v2Insert htree' hnew hroom
  have hledger : s₁.ledger = moveBalance s.ledger who (U8Array.zero 32) amount.toNat := by
    obtain ⟨-, t, newRoot, -, rfl⟩ := v2Insert_eq_ok.1 hins
    rfl
  have hok : apply (acceptingConfig blake3) s
      (.signed who, .depositV2 leaf amount BoundedVec.empty BoundedVec.empty) = .ok _ :=
    depositV2_eq_ok.2 ⟨who, rfl, rfl, _, hpay, s₁, hins, rfl⟩
  exact ⟨_, hok, htree.step rfl (effect_of_apply hok), effect_of_apply hok, hledger⟩

theorem keepsTree_markNullifier (nf : U8Array 32) :
    KeepsTree (merkleHash2 (poseidonHashes blake3)) (markNullifier s nf) leaves :=
  ⟨htree.holds, htree.indexed, htree.current, htree.recent⟩

/-- A v2 purchase of an RWA that has a price. -/
theorem accepting_purchaseRwaV2 {i : SpendPublicV2} (hfresh : s.nullifierUsed i.nullifier = false)
    (hroot : s.V2RootAnchored i.merkleRoot) (hprice : 0 < s.rwaPrices i.rwaId)
    (hnew : i.changeLeaf ∉ leaves) (hroom : leaves.length < 2 ^ merkleDepth) :
    ∃ s', apply (acceptingConfig blake3) s (.none, .purchaseRwaV2 anyAuth i.encode []) = .ok s' ∧
      KeepsTree (merkleHash2 (poseidonHashes blake3)) s' (leaves ++ [i.changeLeaf]) ∧
      Effect (acceptingConfig blake3) s s' (i.footprint s) := by
  obtain ⟨s₁, hins⟩ := accepting_v2Insert (keepsTree_markNullifier htree i.nullifier) hnew hroom
  have hok : apply (acceptingConfig blake3) s (.none, .purchaseRwaV2 anyAuth i.encode []) = .ok _ :=
    purchaseRwaV2_eq_ok.2 ⟨rfl, i, i.decode_encode, hprice, accepting_spendable hfresh hroot, s₁,
      hins, rfl⟩
  have heff := effect_of_apply hok
  simp only [Call.footprint, SpendPublicV2.decode_encode, Option.elim_some] at heff
  exact ⟨_, hok, htree.step rfl heff, heff⟩

/-- A v2 purchase of access to an app that the pool can pay. -/
theorem accepting_purchaseAccessV2 {i : SpendPublicV2} {cfg : AppConfig}
    (hfresh : s.nullifierUsed i.nullifier = false) (hroot : s.V2RootAnchored i.merkleRoot)
    (happ : s.accessKeyConfigs i.rwaId = some cfg) (hprice : 0 < cfg.price)
    (hpool : cfg.price.toNat ≤ s.ledger (U8Array.zero 32)) (hnew : i.changeLeaf ∉ leaves)
    (hroom : leaves.length < 2 ^ merkleDepth) :
    ∃ s', apply (acceptingConfig blake3) s (.none, .purchaseAccessV2 anyAuth i.encode []) = .ok s' ∧
      KeepsTree (merkleHash2 (poseidonHashes blake3)) s' (leaves ++ [i.changeLeaf]) ∧
      Effect (acceptingConfig blake3) s s' i.accessFootprint ∧
      s'.ledger = moveBalance s.ledger (U8Array.zero 32) cfg.paymentAccount cfg.price.toNat := by
  obtain ⟨s₁, hins⟩ := accepting_v2Insert (keepsTree_markNullifier htree i.nullifier) hnew hroom
  have hledger : s₁.ledger = s.ledger := by
    obtain ⟨-, t, newRoot, -, rfl⟩ := v2Insert_eq_ok.1 hins
    rfl
  have hpay : payFromPool (acceptingConfig blake3) s₁ cfg.paymentAccount.toList cfg.price =
      .ok { s₁ with
        ledger := moveBalance s.ledger (U8Array.zero 32) cfg.paymentAccount cfg.price.toNat } := by
    refine payFromPool_eq_ok.2 ⟨cfg.paymentAccount, copyFromSlice_eq_some.2 rfl, _, ?_, rfl⟩
    rw [hledger]
    exact balances_transfer_of_le hpool _ _
  have hok : apply (acceptingConfig blake3) s
      (.none, .purchaseAccessV2 anyAuth i.encode []) = .ok _ :=
    purchaseAccessV2_eq_ok.2 ⟨rfl, i, cfg, i.decode_encode, happ, hprice,
      accepting_spendable hfresh hroot, s₁, hins, _, hpay, rfl⟩
  have heff := effect_of_apply hok
  simp only [Call.footprint, SpendPublicV2.decode_encode, Option.elim_some] at heff
  exact ⟨_, hok, htree.step rfl heff, heff, rfl⟩

omit htree

/-- The state that a v1 purchase of an RWA leaves. -/
def rwaSold {A L : Type} (T : Config A L) (s : State L) (i : RwaPurchaseInputs)
    (changeRp : U8Array 32) : State L :=
  ((rwaPurchased T s i changeRp).depositEvent (.rwaPurchaseAuthorized i.rwaId i.txId)).send
    (.rwaPurchase i.rwaId i.nullifier i.spendTag (s.rwaPrices i.rwaId) i.txId
      i.ownershipCommitment)

/-- A v1 purchase of an RWA that has a price, with a registered note whose tag is
the one of the key. -/
theorem accepting_purchaseRwa {i : RwaPurchaseInputs} {changeRp storedRp : U8Array 32}
    (hdest : i.destination.length < 2 ^ 32) (hproof : i.purchaseProof.length < 2 ^ 32)
    (htag : blake3 (byteString "nulla_spend_tag_v1" ++ anyAuth.take 1312) = i.spendTag)
    (hfresh : s.nullifierUsed i.nullifier = false)
    (hreg : (s.spendTagCommitments i.spendTag).isSome)
    (hunused : s.spendTagUsed i.spendTag = false) (hprice : 0 < s.rwaPrices i.rwaId)
    (hchange : changeRpCommitment s i = .ok changeRp)
    (hstored : s.spendTagRpCommitments i.spendTag = some storedRp) :
    apply (acceptingConfig blake3) s (.none, .purchaseRwa anyAuth i.encode) =
      .ok (rwaSold (acceptingConfig blake3) s i changeRp) := by
  have hlen : i.spendTag.toList.length = 32 := i.spendTag.toList_length
  have hsigned : Verifier.verifyPurchase (acceptingPrimitives blake3) anyAuth i.encode = true := by
    refine Verifier.verifyTagged_eq_true.2 ⟨anyAuth_length, ?_, ?_, accepting_verifySigned _ _⟩
    · rw [RwaPurchaseInputs.encode, List.length_append, hlen]
      exact Nat.le_add_right 32 _
    · rw [RwaPurchaseInputs.encode, List.take_left' hlen]
      exact congrArg List.Vector.toList htag
  have hspend : TagSpendable (acceptingConfig blake3) s anyAuth i.encode i (s.rwaPrices i.rwaId)
      changeRp :=
    ⟨RwaPurchaseInputs.decode_encode hdest hproof, hfresh, hreg, hunused, hprice, hchange,
      ⟨storedRp, hstored, rfl⟩, hsigned⟩
  exact purchaseRwa_eq_ok.2 ⟨rfl, i, changeRp, hspend, rfl⟩

/-- The accounts own ten each. -/
def tenEach : U8Array 32 → ℕ := fun _ => 10

/-- The asset zero and the app zero get the price one, and a note of value ten is
deposited. -/
def openMarket : List (Extrinsic (U8Array 32)) :=
  [(.root, .setRwaPrice (U8Array.zero 32) 1),
    (.root, .setAccessConfig (U8Array.zero 32) 1 (U8Array.ofNat 32 3)),
    (.signed (U8Array.ofNat 32 2),
      .depositV2 (U8Array.ofNat 32 9) 10 BoundedVec.empty BoundedVec.empty)]

variable (blake3 s) in
/-- The market is open and nothing was bought. -/
structure MarketOpen : Prop where
  tree : KeepsTree (merkleHash2 (poseidonHashes blake3)) s [U8Array.ofNat 32 9]
  nullifierUsed : ∀ n, s.nullifierUsed n = false
  ownershipCommitments : ∀ t, s.ownershipCommitments t = none
  ownershipUsed : ∀ t, s.ownershipUsed t = false
  price : s.rwaPrices (U8Array.zero 32) = 1
  app : s.accessKeyConfigs (U8Array.zero 32) =
    some { price := 1, paymentAccount := U8Array.ofNat 32 3 }
  pool : 10 ≤ s.ledger (U8Array.zero 32)
  sent : s.sent = []

theorem openMarket_run :
    MarketOpen blake3 (run (apply (acceptingConfig blake3)) (genesis tenEach) openMarket) := by
  obtain ⟨s₁, h₁, hledger₁⟩ : ∃ s₁, apply (acceptingConfig blake3) (genesis tenEach)
      (.root, .setRwaPrice (U8Array.zero 32) 1) = .ok s₁ ∧ s₁.ledger = tenEach := ⟨_, rfl, rfl⟩
  obtain ⟨s₂, h₂, hledger₂⟩ : ∃ s₂, apply (acceptingConfig blake3) s₁
      (.root, .setAccessConfig (U8Array.zero 32) 1 (U8Array.ofNat 32 3)) = .ok s₂ ∧
        s₂.ledger = s₁.ledger := ⟨_, rfl, rfl⟩
  have heff₁ := effect_of_apply h₁
  have heff₂ := effect_of_apply h₂
  have htree : KeepsTree (merkleHash2 (poseidonHashes blake3)) s₂ [] :=
    ((keepsTree_genesis tenEach).step rfl heff₁).step rfl heff₂
  obtain ⟨s₃, h₃, htree₃, heff₃, hledger₃⟩ :=
    @accepting_depositV2 blake3 s₂ [] htree (U8Array.ofNat 32 2) (U8Array.ofNat 32 9) 10
      (by rw [hledger₂, hledger₁]; exact le_rfl) (by simp) (by decide)
  have hrun : run (apply (acceptingConfig blake3)) (genesis tenEach) openMarket = s₃ := by
    rw [openMarket, run_cons, next_ok h₁, run_cons, next_ok h₂, run_cons, next_ok h₃, run_nil]
  rw [hrun]
  constructor
  · exact htree₃
  · simp [heff₃.nullifierUsed, heff₂.nullifierUsed, heff₁.nullifierUsed, Call.footprint, write,
      genesis]
  · simp [heff₃.ownershipCommitments, heff₂.ownershipCommitments, heff₁.ownershipCommitments,
      Call.footprint, write, genesis]
  · simp [heff₃.ownershipUsed, heff₂.ownershipUsed, heff₁.ownershipUsed, Call.footprint, write,
      genesis]
  · simp [heff₃.rwaPrices, heff₂.rwaPrices, heff₁.rwaPrices, Call.footprint, write, genesis]
  · simp [heff₃.accessKeyConfigs, heff₂.accessKeyConfigs, Call.footprint, write]
  · have hne : U8Array.ofNat 32 2 ≠ U8Array.zero 32 := by decide
    rw [hledger₃, moveBalance_dest hne]
    exact Nat.le_add_left _ _
  · simp [heff₃.sent, heff₂.sent, heff₁.sent, Call.footprint, genesis]

/-- A purchase of the asset zero under the transaction id zero, against the current
root; its other fields are numbered. -/
def rebuy {L : Type} (s : State L) (n : ℕ) : SpendPublicV2 where
  merkleRoot := s.currentRootV2
  nullifier := U8Array.ofNat 32 n
  rwaId := U8Array.zero 32
  txId := U8Array.zero 16
  ownershipCommitment := U8Array.ofNat 32 n
  changeLeaf := U8Array.ofNat 32 n
  changePkd := U8Array.zero 32

def rebuyCall {L : Type} (s : State L) (n : ℕ) : Extrinsic (U8Array 32) :=
  (.none, .purchaseRwaV2 anyAuth (rebuy s n).encode [])

variable (blake3) in
/-- In the open market the note buys an asset, and its change buys it again under
the same transaction id. -/
theorem rebuy_succeeds : ∃ s₀ s₁ s₂,
    run (apply (acceptingConfig blake3)) (genesis tenEach) openMarket = s₀ ∧
      MarketOpen blake3 s₀ ∧
      apply (acceptingConfig blake3) s₀ (rebuyCall s₀ 1) = .ok s₁ ∧
      apply (acceptingConfig blake3) s₁ (rebuyCall s₁ 2) = .ok s₂ ∧
      Effect (acceptingConfig blake3) s₀ s₁ ((rebuy s₀ 1).footprint s₀) ∧
      Effect (acceptingConfig blake3) s₁ s₂ ((rebuy s₁ 2).footprint s₁) := by
  have hopen : MarketOpen blake3 _ := openMarket_run
  generalize run (apply (acceptingConfig blake3)) (genesis tenEach) openMarket = s₀ at hopen ⊢
  have hroom : 2 < 2 ^ merkleDepth := by decide
  have hnew₁ : U8Array.ofNat 32 1 ∉ [U8Array.ofNat 32 9] := by decide
  have hnew₂ : U8Array.ofNat 32 2 ∉ [U8Array.ofNat 32 9] ++ [U8Array.ofNat 32 1] := by decide
  obtain ⟨s₁, h₁, htree₁, heff₁⟩ := @accepting_purchaseRwaV2 _ _ _ hopen.tree (rebuy s₀ 1)
    (hopen.nullifierUsed _) (.inl rfl) (by rw [rebuy, hopen.price]; decide) hnew₁ (by decide)
  have hprice : s₁.rwaPrices (U8Array.zero 32) = 1 := by
    rw [heff₁.rwaPrices]
    exact hopen.price
  have hfresh : s₁.nullifierUsed (U8Array.ofNat 32 2) = false := by
    have hne : U8Array.ofNat 32 2 ≠ U8Array.ofNat 32 1 := by decide
    rw [heff₁.nullifierUsed]
    exact (Function.update_of_ne hne _ _).trans (hopen.nullifierUsed _)
  obtain ⟨s₂, h₂, -, heff₂⟩ := @accepting_purchaseRwaV2 _ _ _ htree₁ (rebuy s₁ 2)
    hfresh (.inl rfl) (by rw [rebuy, hprice]; decide) hnew₂ hroom
  exact ⟨s₀, s₁, s₂, rfl, hopen, h₁, h₂, heff₁, heff₂⟩

/-- A purchase of access to the app zero, with the fields of `rebuy`. -/
def rebuyAccessCall {L : Type} (s : State L) (n : ℕ) : Extrinsic (U8Array 32) :=
  (.none, .purchaseAccessV2 anyAuth (rebuy s n).encode [])

variable (blake3) in
/-- Access is bought twice in the open market, under the same transaction id. -/
theorem rebuyAccess_succeeds : ∃ s₀ s₁ s₂,
    run (apply (acceptingConfig blake3)) (genesis tenEach) openMarket = s₀ ∧
      s₀.sent = [] ∧
      apply (acceptingConfig blake3) s₀ (rebuyAccessCall s₀ 1) = .ok s₁ ∧
      apply (acceptingConfig blake3) s₁ (rebuyAccessCall s₁ 2) = .ok s₂ ∧
      Effect (acceptingConfig blake3) s₀ s₁ (rebuy s₀ 1).accessFootprint ∧
      Effect (acceptingConfig blake3) s₁ s₂ (rebuy s₁ 2).accessFootprint := by
  have hopen : MarketOpen blake3 _ := openMarket_run
  generalize run (apply (acceptingConfig blake3)) (genesis tenEach) openMarket = s₀ at hopen ⊢
  have hnew₁ : U8Array.ofNat 32 1 ∉ [U8Array.ofNat 32 9] := by decide
  have hnew₂ : U8Array.ofNat 32 2 ∉ [U8Array.ofNat 32 9] ++ [U8Array.ofNat 32 1] := by decide
  have hroom : 2 < 2 ^ merkleDepth := by decide
  have hprice : (1 : UInt64).toNat = 1 := rfl
  obtain ⟨s₁, h₁, htree₁, heff₁, hledger₁⟩ := @accepting_purchaseAccessV2 _ _ _ hopen.tree
    (rebuy s₀ 1) _ (hopen.nullifierUsed _) (.inl rfl) hopen.app (by decide)
    (le_trans (by rw [hprice]; norm_num) hopen.pool) hnew₁ (by decide)
  have happ : s₁.accessKeyConfigs (U8Array.zero 32) =
      some { price := 1, paymentAccount := U8Array.ofNat 32 3 } := by
    rw [heff₁.accessKeyConfigs]
    exact hopen.app
  have hfresh : s₁.nullifierUsed (U8Array.ofNat 32 2) = false := by
    have hne : U8Array.ofNat 32 2 ≠ U8Array.ofNat 32 1 := by decide
    rw [heff₁.nullifierUsed]
    exact (Function.update_of_ne hne _ _).trans (hopen.nullifierUsed _)
  have hpool : (1 : UInt64).toNat ≤ s₁.ledger (U8Array.zero 32) := by
    have hne : U8Array.zero 32 ≠ U8Array.ofNat 32 3 := by decide
    rw [hledger₁, moveBalance_source hne, hprice]
    have := hopen.pool
    omega
  obtain ⟨s₂, h₂, -, heff₂, -⟩ := @accepting_purchaseAccessV2 _ _ _ htree₁ (rebuy s₁ 2) _
    hfresh (.inl rfl) happ (by decide) hpool hnew₂ hroom
  exact ⟨s₀, s₁, s₂, rfl, hopen.sent, h₁, h₂, heff₁, heff₂⟩

end NullaRelay.ProofHub
