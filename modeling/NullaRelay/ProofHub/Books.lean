import NullaRelay.ProofHub.PoseidonEval
import NullaRelay.ProofHub.ProverOpenings

/-!
# The books of the runtime

Over the two circuits the v2 lane keeps right books: every leaf has its note, every
spend consumes a note of the tree once, and the deposits are what was paid out and what
is unspent. The one way out is a collision of the hashes, on the notes and the tree nodes
of the run.
-/

namespace NullaRelay.ProofHub

open NullaRelay.Frame V2 Transition Air

attribute [local instance] neZeroSpendRows neZeroSpendColumns neZeroDepositRows
  neZeroDepositColumns

variable {A L : Type} {s s' : State L} {blake3 : List UInt8 → U8Array 32}

/-- Two notes or two nodes of the tree that share a hash, or one whose hash is zero. -/
inductive Collides (H : Hashes) (notes : Set Note) (pairs : Set (Pair × Pair)) : Prop
  | notes {n m : Note} (hn : n ∈ notes) (hm : m ∈ notes) (hne : n ≠ m) (heq : n.hash H = m.hash H)
  | zeroNote {n : Note} (hn : n ∈ notes) (heq : n.hash H = (0, 0))
  | nodes {p q : Pair × Pair} (hp : p ∈ pairs) (hq : q ∈ pairs) (hne : p ≠ q)
      (heq : H.merkle p.1 p.2 = H.merkle q.1 q.2)
  | zeroNode {p : Pair × Pair} (hp : p ∈ pairs) (heq : H.merkle p.1 p.2 = (0, 0))

theorem Collides.mono {H : Hashes} {notes notes' : Set Note} {pairs : Set (Pair × Pair)}
    (h : Collides H notes pairs) (hnotes : notes ⊆ notes') : Collides H notes' pairs := by
  cases h with
  | notes hn hm hne heq => exact .notes (hnotes hn) (hnotes hm) hne heq
  | zeroNote hn heq => exact .zeroNote (hnotes hn) heq
  | nodes hp hq hne heq => exact .nodes hp hq hne heq
  | zeroNode hp heq => exact .zeroNode hp heq

theorem injectiveOn_of_not_collides {H : Hashes} {notes : Set Note} {pairs : Set (Pair × Pair)}
    (h : ¬ Collides H notes pairs) : InjectiveOn H notes pairs where
  note_inj n hn m hm heq := by
    by_contra hne
    exact h (.notes hn hm hne heq)
  note_ne n hn heq := h (.zeroNote hn heq)
  merkle_inj p hp q hq heq := by
    by_contra hne
    exact h (.nodes hp hq hne heq)
  merkle_ne p hp heq := h (.zeroNode hp heq)

/-- The hashes collide on the notes and the tree nodes of a history. -/
def Extractor.CollidesIn {H : Hashes} {V : ProofVerify} (T : Config A L) (X : Extractor H V)
    (past : List (State L × Extrinsic A)) : Prop :=
  Collides H (X.noteSet (v2Steps T past)) (X.pairSet (newLeaves past) (v2Steps T past))

/-- Where nothing collides, the run of the runtime keeps the invariant of the ledger. -/
theorem balanced_of_not_collides {P : Verifier.Primitives} (W : StarkExtractor P)
    (T : Config A L) (ledger : L) (steps : List (ChainStep A L))
    (hcanon : ∀ e ∈ accepted (T.wired P) ledger steps, CanonicalNullifier e.2.2)
    (hcoll : ¬ W.extractor.CollidesIn (T.wired P) (accepted (T.wired P) ledger steps)) :
    Balanced W.extractor (reached (T.wired P) ledger steps)
      (newLeaves (accepted (T.wired P) ledger steps))
      (v2Steps (T.wired P) (accepted (T.wired P) ledger steps)) := by
  have hbal := @chain_balanced _ _ (T.wired P).canonical _ W.extractor rfl ledger steps
  obtain ⟨hcalls, hrun⟩ := chain_canonical ledger steps hcanon
  rw [hcalls, hrun] at hbal
  exact hbal (injectiveOn_of_not_collides hcoll)

/-- A history of the runtime, its verifier wired to the circuits, either keeps right
books, with the notes that the traces open, or its notes and tree nodes collide. -/
theorem circuits_keep_books {P : Verifier.Primitives} (W : StarkExtractor P) (T : Config A L)
    (ledger : L) (steps : List (ChainStep A L))
    (hcanon : ∀ e ∈ accepted (T.wired P) ledger steps, CanonicalNullifier e.2.2) :
    @Accounted _ _ (T.wired P).canonical _ W.extractor (accepted (T.wired P) ledger steps) ∨
      W.extractor.CollidesIn (T.wired P) (accepted (T.wired P) ledger steps) := by
  refine or_iff_not_imp_right.2 fun hcoll => ?_
  have hbal := balanced_of_not_collides W T ledger steps hcanon hcoll
  exact hbal.accounted (T := (T.wired P).canonical)

/-- A deposit of a new leaf goes through while there is room in the tree. -/
theorem depositV2_succeeds {hash2 : U8Array 32 → U8Array 32 → U8Array 32} {A L : Type}
    {T : Config A L} {s : State L} {leaves : List (U8Array 32)} {who : A} {leaf : U8Array 32}
    {amount : UInt64} {proof : BoundedVec UInt8 65536} {hints : BoundedVec UInt8 4096} {ledger : L}
    (hins : T.proofVerifier.v2InsertLeaf = v2InsertLeaf hash2) (htree : KeepsTree hash2 s leaves)
    (hproof : T.proofVerifier.verifyDepositV2 proof.val amount leaf = true)
    (hpay : T.currency.transfer s.ledger who T.poolAccount amount.toNat .keepAlive = some ledger)
    (hnew : leaf ∉ leaves) (hroom : leaves.length < 2 ^ merkleDepth) :
    ∃ s', apply T s (.signed who, .depositV2 leaf amount proof hints) = .ok s' := by
  obtain ⟨⟨t, newRoot⟩, hleaf⟩ := v2InsertLeaf_isSome htree.holds hroom leaf
  rw [← hins] at hleaf
  exact ⟨_, depositV2_eq_ok.2 ⟨who, rfl, hproof, ledger, hpay, _,
    v2Insert_eq_ok.2 ⟨(htree.indexed leaf).2 hnew, t, newRoot, hleaf, rfl⟩, rfl⟩⟩

/-- A new leaf joins a tree with room, after the nullifier is marked. -/
theorem exists_v2Insert {hash2 : U8Array 32 → U8Array 32 → U8Array 32} {T : Config A L}
    {s : State L} {leaves : List (U8Array 32)}
    (hins : T.proofVerifier.v2InsertLeaf = v2InsertLeaf hash2) (htree : KeepsTree hash2 s leaves)
    (hroom : leaves.length < 2 ^ merkleDepth) {leaf : U8Array 32} (hnew : leaf ∉ leaves)
    (nf : U8Array 32) :
    ∃ s₁, v2Insert T (markNullifier s nf) leaf = .ok s₁ ∧ s₁.ledger = s.ledger := by
  obtain ⟨⟨t, newRoot⟩, hleaf⟩ := v2InsertLeaf_isSome htree.holds hroom leaf
  rw [← hins] at hleaf
  exact ⟨_, v2Insert_eq_ok.2 ⟨(htree.indexed leaf).2 hnew, t, newRoot, hleaf, rfl⟩, rfl⟩

/-! A proof system that accepts what has a satisfying trace, and a run with a purchase. -/

section Example

/-- Exactly the statements with a satisfying trace have proofs, and every byte string is
one. -/
noncomputable def idealPrimitives (blake3 : List UInt8 → U8Array 32) : Verifier.Primitives :=
  { acceptingPrimitives blake3 with
    verifyDepositV2Air := fun _ amount leaf => @decide (∃ t : Trace BaseElement 256 6,
      (DepositAir.depositV2Air blake3 ⟨amount, leaf⟩).Satisfies t) (Classical.propDecidable _)
    verifySpendAir := fun _ pi => @decide (∃ t : Trace BaseElement 8192 14,
      (SpendAir.spendAir blake3 pi).Satisfies t) (Classical.propDecidable _) }

theorem ideal_verifyDepositV2Air {proof : List UInt8} {amount : UInt64} {leaf : U8Array 32} :
    (idealPrimitives blake3).verifyDepositV2Air proof amount leaf = true ↔
      ∃ t : Trace BaseElement 256 6,
        (DepositAir.depositV2Air blake3 ⟨amount, leaf⟩).Satisfies t :=
  @decide_eq_true_iff _ (Classical.propDecidable _)

theorem ideal_verifySpendAir {proof : List UInt8} {pi : SpendAir.SpendPI} :
    (idealPrimitives blake3).verifySpendAir proof pi = true ↔
      ∃ t : Trace BaseElement 8192 14, (SpendAir.spendAir blake3 pi).Satisfies t :=
  @decide_eq_true_iff _ (Classical.propDecidable _)

noncomputable def idealExtractor (blake3 : List UInt8 → U8Array 32) :
    StarkExtractor (idealPrimitives blake3) where
  depositTrace _ pi := Classical.epsilon fun t => (DepositAir.depositV2Air blake3 pi).Satisfies t
  spendTrace _ pi := Classical.epsilon fun t => (SpendAir.spendAir blake3 pi).Satisfies t
  deposit_satisfies _ _ h := Classical.epsilon_spec (ideal_verifyDepositV2Air.1 h)
  spend_satisfies _ _ h := Classical.epsilon_spec (ideal_verifySpendAir.1 h)

/-- The pallet over this proof system. -/
noncomputable abbrev idealConfig (blake3 : List UInt8 → U8Array 32) :
    Config (U8Array 32) (U8Array 32 → ℕ) :=
  (acceptingConfig blake3).wired (idealPrimitives blake3)

/-- A hash whose first field element is one for every string. -/
@[irreducible] def oneBlake3 (_ : List UInt8) : U8Array 32 := U8Array.ofNat 32 1

/-- The pallet over this proof system and hash. -/
noncomputable abbrev marketConfig : Config (U8Array 32) (U8Array 32 → ℕ) := idealConfig oneBlake3

abbrev marketHashes : Hashes := poseidonHashes oneBlake3

theorem unpack_one : unpack (U8Array.ofNat 32 1) = natPair (1, 0) := by
  have hlo : LittleEndian.leNat (((U8Array.ofNat 32 1).toList.drop 0).take 16) = 1 := by decide
  have hhi : LittleEndian.leNat (((U8Array.ofNat 32 1).toList.drop 16).take 16) = 0 := by decide
  rw [unpack, unpackHalf, unpackHalf, hlo, hhi, natPair]

theorem ivFromDomain_one (domain : List UInt8) :
    BaseElement.new 1 = ivFromDomain oneBlake3 domain := by
  rw [ivFromDomain, oneBlake3]
  exact (congrArg Prod.fst unpack_one).symm

/-- The round constants of this hash. -/
def ones (_ : ℕ) (_ : Fin 4) : ℕ := 1

theorem standsFor_ones : StandsFor oneBlake3 ones := fun r c => by
  rw [poseidonRc, oneBlake3, ones]
  exact (congrArg Prod.fst unpack_one).symm

/-- A note under the key digest one, on numbers. -/
@[irreducible] def marketNote (v b : ℕ) : ℕ × ℕ := natNote ones 1 v (b, 0) (1, 0)

theorem marketNote_lt (v b : ℕ) :
    (marketNote v b).1 < baseModulus ∧ (marketNote v b).2 < baseModulus := by
  unfold marketNote
  exact natNote_lt v (b, 0) (1, 0)

theorem note_marketNote (v : UInt64) {b : U8Array 32} {n : ℕ} (hb : unpack b = natPair (n, 0)) :
    marketHashes.note v (unpack b) (unpack (U8Array.ofNat 32 1)) =
      natPair (marketNote v.toNat n) := by
  rw [hb, unpack_one]
  unfold marketNote
  exact (natPair_natNote standsFor_ones (ivFromDomain_one _) v _ _).symm

/-- The notes of the market are distinct and not zero, the nullifiers of two of them are
distinct, and so are the hashes of the nodes over these two. -/
theorem marketNotes_nodup :
    [(0, 0), marketNote 10 0, marketNote 7 1, marketNote 4 1, marketNote 3 1].Nodup := by
  decide +kernel

theorem marketNullifiers_ne : natNullifier ones 1 (0, 0) ≠ natNullifier ones 1 (1, 0) := by
  decide +kernel

theorem marketNodes_nodup : ((0, 0) :: edgeHashes (natMerkle ones 1) merkleDepth (0, 0)
    (marketNote 10 0) (marketNote 10 0) (marketNote 7 1) []).Nodup := by
  decide +kernel

/-- The leaves of ten under the blinding zero and of seven under the blinding one. -/
@[irreducible] def tenLeaf : U8Array 32 :=
  noteHash marketHashes 10 (U8Array.zero 32) (U8Array.ofNat 32 1)

@[irreducible] def sevenLeaf : U8Array 32 :=
  noteHash marketHashes 7 (U8Array.ofNat 32 1) (U8Array.ofNat 32 1)

theorem unpack_tenLeaf : unpack tenLeaf = natPair (marketNote 10 0) := by
  rw [tenLeaf, unpack_noteHash]
  exact note_marketNote 10 (unpack_zero.trans natPair_zero.symm)

theorem unpack_sevenLeaf : unpack sevenLeaf = natPair (marketNote 7 1) := by
  rw [sevenLeaf, unpack_noteHash]
  exact note_marketNote 7 unpack_one

theorem marketNote_inj {v b v' b' : ℕ} (h : natPair (marketNote v b) = natPair (marketNote v' b')) :
    marketNote v b = marketNote v' b' :=
  natPair_inj (marketNote_lt v b) (marketNote_lt v' b') h

theorem tenDeposit_satisfies :
    (DepositAir.depositV2Air (idealPrimitives oneBlake3).blake3 ⟨10, tenLeaf⟩).Satisfies
      (DepositAir.buildDepositTrace (idealPrimitives oneBlake3).blake3 10 (U8Array.zero 32)
        (U8Array.ofNat 32 1)) :=
  DepositAir.buildDepositTrace_satisfies (by rw [tenLeaf]; rfl)

/-- The witness of a purchase for three with the ten, which leaves the seven. -/
def tenWitness : SpendAir.SpendWitness :=
  treeWitness oneBlake3 [tenLeaf] 0 10 (U8Array.zero 32) (U8Array.ofNat 32 1) 7
    (U8Array.ofNat 32 1) (U8Array.ofNat 32 1)

theorem tenWitness_balanced : SpendAir.Balanced tenWitness 3 1 := .inl ⟨rfl, by decide⟩

theorem tenWitness_satisfies : (SpendAir.spendAir (idealPrimitives oneBlake3).blake3
      (SpendAir.provePublicInputs (idealPrimitives oneBlake3).blake3 tenWitness 3 1)).Satisfies
    (SpendAir.buildSpendTrace (idealPrimitives oneBlake3).blake3 tenWitness) :=
  tenWitness_balanced.satisfies

@[irreducible] def tenRoot : U8Array 32 := treeRoot (merkleHash2 marketHashes) [tenLeaf]

@[irreducible] def tenNullifier : U8Array 32 := nullifierHash marketHashes (U8Array.zero 32)

/-- The purchase of the asset zero. -/
def tenPurchase : SpendPublicV2 where
  merkleRoot := tenRoot
  nullifier := tenNullifier
  rwaId := U8Array.zero 32
  txId := U8Array.zero 16
  ownershipCommitment := U8Array.zero 32
  changeLeaf := sevenLeaf
  changePkd := U8Array.ofNat 32 1

/-- The statement of its proof. -/
def tenSpend : SpendStatement where
  proof := []
  root := tenRoot
  nullifier := tenNullifier
  pkd := U8Array.ofNat 32 1
  priceOrAmount := 3
  changeLeaf := sevenLeaf
  changePkd := U8Array.ofNat 32 1
  purchase := true

theorem tenSpend_publicInputs :
    tenSpend.publicInputs = SpendAir.provePublicInputs oneBlake3 tenWitness 3 1 := by
  have hleaf : [tenLeaf][0]? =
      some (noteHash marketHashes 10 (U8Array.zero 32) (U8Array.ofNat 32 1)) := by
    unfold tenLeaf
    rfl
  have hinputs := provePublicInputs_treeWitness hleaf (by norm_num [merkleDepth])
    tenWitness_balanced
  unfold tenSpend tenRoot tenNullifier sevenLeaf
  exact hinputs.symm

/-- The asset zero costs three and the app zero four; the account one deposits ten and
buys the asset. -/
def marketRun : List (ChainStep (U8Array 32) (U8Array 32 → ℕ)) :=
  [.call (.root, .setRwaPrice (U8Array.zero 32) 3),
    .call (.root, .setAccessConfig (U8Array.zero 32) 4 (U8Array.ofNat 32 3)),
    .call (.signed (U8Array.ofNat 32 1),
      .depositV2 tenLeaf 10 BoundedVec.empty BoundedVec.empty),
    .call (.none, .purchaseRwaV2 anyAuth tenPurchase.encode [])]

/-- What the run does: a deposit and a spend, and the nullifier of the seven is unused. -/
structure MarketReached (past : List (State (U8Array 32 → ℕ) × Extrinsic (U8Array 32)))
    (s : State (U8Array 32 → ℕ)) : Prop where
  leaves : newLeaves past = [tenLeaf, sevenLeaf]
  steps : v2Steps marketConfig past = [.deposit [] 10 tenLeaf, .spend tenSpend]
  unused : s.nullifierUsed (nullifierHash marketHashes (U8Array.ofNat 32 1)) = false
  price : s.rwaPrices (U8Array.zero 32) = 3
  app : s.accessKeyConfigs (U8Array.zero 32) =
    some { price := 4, paymentAccount := U8Array.ofNat 32 3 }

theorem tenNullifier_ne : nullifierHash marketHashes (U8Array.ofNat 32 1) ≠ tenNullifier := by
  intro h
  have hpair := congrArg unpack h
  rw [tenNullifier, nullifierHash, nullifierHash, unpack_packPair, unpack_packPair, unpack_one,
    unpack_zero, ← natPair_zero,
    ← natPair_natNullifier standsFor_ones (ivFromDomain_one _),
    ← natPair_natNullifier standsFor_ones (ivFromDomain_one _)] at hpair
  exact marketNullifiers_ne (natPair_inj (natOutput_lt _) (natOutput_lt _) hpair).symm

theorem sevenLeaf_notMem : sevenLeaf ∉ [tenLeaf] := by
  intro hmem
  have hpair := congrArg unpack (List.mem_singleton.1 hmem)
  rw [unpack_tenLeaf, unpack_sevenLeaf] at hpair
  have hnodup := marketNotes_nodup
  simp only [List.nodup_cons, List.mem_cons, not_or] at hnodup
  exact hnodup.2.1.1 (marketNote_inj hpair).symm

theorem pkDigest_one : pkDigest marketConfig.blake3 (anyAuth.take 1312) = U8Array.ofNat 32 1 := by
  rw [show marketConfig.blake3 = oneBlake3 from rfl, pkDigest, oneBlake3]

/-- The purchase goes through in a tree of the ten, while its nullifier is unused. -/
theorem tenPurchase_succeeds {s : State (U8Array 32 → ℕ)}
    (htree : KeepsTree (merkleHash2 marketHashes) s [tenLeaf])
    (hfresh : s.nullifierUsed tenNullifier = false) (hprice : s.rwaPrices (U8Array.zero 32) = 3) :
    ∃ s', apply marketConfig s (.none, .purchaseRwaV2 anyAuth tenPurchase.encode []) = .ok s' := by
  have hroot : s.currentRootV2 = tenRoot := by rw [tenRoot, htree.current]
  have hproof : (idealPrimitives oneBlake3).verifySpendAir [] tenSpend.publicInputs = true := by
    rw [tenSpend_publicInputs]
    exact ideal_verifySpendAir.2 ⟨_, tenWitness_satisfies⟩
  have hspend : Spendable marketConfig s anyAuth tenPurchase.encode [] tenRoot tenNullifier 3
      sevenLeaf (U8Array.ofNat 32 1) false :=
    { fresh := hfresh
      anchored := .inl hroot.symm
      signed := Verifier.verifySigned_eq_true.2 ⟨anyAuth_length, rfl⟩
      length := by
        rw [anyAuth_length]
        norm_num
      proved := by
        show (idealPrimitives oneBlake3).verifySpendAir [] _ = true
        rw [pkDigest_one]
        exact hproof }
  obtain ⟨s₁, hins, -⟩ := exists_v2Insert (T := marketConfig) rfl htree
    (by norm_num [merkleDepth]) sevenLeaf_notMem tenNullifier
  exact ⟨_, purchaseRwaV2_eq_ok.2 ⟨rfl, tenPurchase, tenPurchase.decode_encode,
    by rw [tenPurchase, hprice]; decide, by rw [tenPurchase, hprice]; exact hspend, s₁, hins,
    rfl⟩⟩

theorem marketRun_reached : MarketReached (accepted marketConfig tenEach marketRun)
    (reached marketConfig tenEach marketRun) := by
  obtain ⟨s₁, h₁, hledger₁⟩ : ∃ s₁, chainStep marketConfig (genesis tenEach)
      (.call (.root, .setRwaPrice (U8Array.zero 32) 3)) = .ok s₁ ∧ s₁.ledger = tenEach :=
    ⟨_, rfl, rfl⟩
  obtain ⟨s₂, h₂, hledger₂⟩ : ∃ s₂, chainStep marketConfig s₁
      (.call (.root, .setAccessConfig (U8Array.zero 32) 4 (U8Array.ofNat 32 3))) = .ok s₂ ∧
        s₂.ledger = s₁.ledger := ⟨_, rfl, rfl⟩
  have heff₁ := effect_of_apply h₁
  have heff₂ := effect_of_apply h₂
  have htree : KeepsTree (merkleHash2 marketHashes) s₂ [] :=
    ((keepsTree_genesis tenEach).step (T := marketConfig) rfl heff₁).step (T := marketConfig) rfl
      heff₂
  have hbal : (10 : UInt64).toNat ≤ s₂.ledger (U8Array.ofNat 32 1) := by
    rw [hledger₂, hledger₁]
    exact le_rfl
  have hdeposit : (idealPrimitives oneBlake3).verifyDepositV2Air [] 10 tenLeaf = true :=
    ideal_verifyDepositV2Air.2 ⟨_, tenDeposit_satisfies⟩
  obtain ⟨s₃, h₃⟩ : ∃ s₃, apply marketConfig s₂ (.signed (U8Array.ofNat 32 1),
      .depositV2 tenLeaf 10 BoundedVec.empty BoundedVec.empty) = .ok s₃ :=
    depositV2_succeeds rfl htree hdeposit
      (balances_transfer_of_le hbal (U8Array.zero 32) .keepAlive) List.not_mem_nil
      (by norm_num [merkleDepth])
  have heff₃ := effect_of_apply h₃
  have htree₃ : KeepsTree (merkleHash2 marketHashes) s₃ [tenLeaf] :=
    htree.step (T := marketConfig) rfl heff₃
  have hprice₃ : s₃.rwaPrices (U8Array.zero 32) = 3 := by
    simp [heff₃.rwaPrices, heff₂.rwaPrices, heff₁.rwaPrices, Call.footprint, write]
  have hused₃ (n : U8Array 32) : s₃.nullifierUsed n = false := by
    simp [heff₃.nullifierUsed, heff₂.nullifierUsed, heff₁.nullifierUsed, Call.footprint, write,
      genesis]
  obtain ⟨s₄, h₄⟩ := tenPurchase_succeeds htree₃ (hused₃ _) hprice₃
  have heff₄ := effect_of_apply h₄
  simp only [Call.footprint, SpendPublicV2.decode_encode, Option.elim_some] at heff₄
  have h₃ : chainStep marketConfig s₂ (.call (.signed (U8Array.ofNat 32 1),
    .depositV2 tenLeaf 10 BoundedVec.empty BoundedVec.empty)) = .ok s₃ := h₃
  have h₄ : chainStep marketConfig s₃
    (.call (.none, .purchaseRwaV2 anyAuth tenPurchase.encode [])) = .ok s₄ := h₄
  rw [accepted, reached, marketRun, history_cons_ok h₁, history_cons_ok h₂, history_cons_ok h₃,
    history_cons_ok h₄, run_cons, next_ok h₁, run_cons, next_ok h₂, run_cons, next_ok h₃,
    run_cons, next_ok h₄, run_nil]
  have hstep : tenPurchase.statement marketConfig anyAuth [] 3 = tenSpend := by
    rw [SpendPublicV2.statement, pkDigest_one]
    rfl
  constructor
  · simp [newLeaves, calls, Call.footprint, SpendPublicV2.decode_encode, SpendPublicV2.footprint,
      tenPurchase]
  · have hprice : s₃.rwaPrices tenPurchase.rwaId = 3 := hprice₃
    simp only [v2Steps, calls, List.filterMap_cons, Call.v2Step,
      SpendPublicV2.decode_encode, Option.map_some, hprice, hstep]
    rfl
  · rw [heff₄.nullifierUsed]
    exact (Function.update_of_ne tenNullifier_ne _ _).trans (hused₃ _)
  · rw [heff₄.rwaPrices]
    exact hprice₃
  · simp [heff₄.accessKeyConfigs, heff₃.accessKeyConfigs, heff₂.accessKeyConfigs, Call.footprint,
      write, SpendPublicV2.footprint]

theorem marketRun_canonical :
    ∀ e ∈ accepted marketConfig tenEach marketRun, CanonicalNullifier e.2.2 := by
  intro e he n hn
  have hcall : ChainStep.call e.2 ∈ marketRun := mem_of_mem_history (mem_calls.1 he)
  simp only [marketRun, List.mem_cons, List.not_mem_nil, ChainStep.call.injEq, or_false] at hcall
  rcases hcall with h | h | h | h
  · rw [h] at hn
    cases hn
  · rw [h] at hn
    cases hn
  · rw [h] at hn
    cases hn
  · rw [h, Call.v2Nullifier, SpendPublicV2.decode_encode] at hn
    obtain rfl : tenNullifier = n := Option.some.inj hn
    unfold tenNullifier
    rw [nullifierHash, unpack_packPair]

/-- The extractor that knows what the two provers of the run know. -/
noncomputable def marketExtractor : StarkExtractor (idealPrimitives oneBlake3) :=
  ((idealExtractor oneBlake3).withDeposit tenDeposit_satisfies).withSpend tenWitness_satisfies

def tenNote : Note := noteOfBytes 10 (U8Array.zero 32) (U8Array.ofNat 32 1)

def sevenNote : Note := noteOfBytes 7 (U8Array.ofNat 32 1) (U8Array.ofNat 32 1)

theorem marketExtractor_deposit : marketExtractor.extractor.deposit [] 10 tenLeaf = tenNote := by
  rw [marketExtractor, StarkExtractor.withSpend_deposit]
  exact @StarkExtractor.withDeposit_deposit (idealPrimitives oneBlake3) (idealExtractor oneBlake3)
    10 (U8Array.zero 32) (U8Array.ofNat 32 1) tenLeaf [] tenDeposit_satisfies

theorem marketExtractor_spend : marketExtractor.extractor.spend tenSpend = tenWitness.opening :=
  StarkExtractor.withSpend_spend tenWitness_balanced tenSpend_publicInputs

theorem market_notes :
    marketExtractor.extractor.notes [.deposit [] 10 tenLeaf, .spend tenSpend] =
      [tenNote, sevenNote] := by
  have hpurchase : tenSpend.purchase = true := rfl
  simp only [Extractor.notes, Extractor.newNote, List.filterMap_cons, List.filterMap_nil,
    hpurchase, if_true, marketExtractor_deposit, marketExtractor_spend]
  rfl

theorem market_openings :
    marketExtractor.extractor.openings [.deposit [] 10 tenLeaf, .spend tenSpend] =
      [tenWitness.opening] := by
  simp only [Extractor.openings, Extractor.opening, List.filterMap_cons, List.filterMap_nil,
    marketExtractor_spend]

theorem mem_market_noteSet {n : Note} :
    n ∈ marketExtractor.extractor.noteSet [.deposit [] 10 tenLeaf, .spend tenSpend] ↔
      n = tenNote ∨ n = sevenNote := by
  have hopened : tenWitness.opening.note = tenNote := rfl
  have hset : n ∈ marketExtractor.extractor.noteSet [.deposit [] 10 tenLeaf, .spend tenSpend] ↔
      n ∈ [tenNote, sevenNote] ∨ ∃ o ∈ [tenWitness.opening], o.note = n := by
    rw [← market_notes, ← market_openings]
    rfl
  rw [hset]
  simp only [List.mem_cons, List.not_mem_nil, or_false, exists_eq_left, hopened]
  tauto

theorem market_pairSet : marketExtractor.extractor.pairSet [tenLeaf, sevenLeaf]
      [.deposit [] 10 tenLeaf, .spend tenSpend] ⊆ treePairs marketHashes [tenLeaf, sevenLeaf] := by
  rintro p (hp | ⟨o, ho, hp⟩)
  · exact hp
  · rw [market_openings, List.mem_singleton] at ho
    have hleaf : [tenLeaf][0]? =
        some (noteHash marketHashes 10 (U8Array.zero 32) (U8Array.ofNat 32 1)) := by
      unfold tenLeaf
      rfl
    rw [ho] at hp
    exact treePairs_append [tenLeaf] [sevenLeaf]
      (pathPairs_treeWitness hleaf (by norm_num [merkleDepth]) hp)

theorem hash_tenNote : tenNote.hash marketHashes = natPair (marketNote 10 0) :=
  note_marketNote 10 (unpack_zero.trans natPair_zero.symm)

theorem hash_sevenNote : sevenNote.hash marketHashes = natPair (marketNote 7 1) :=
  note_marketNote 7 unpack_one

/-- Nothing collides in the market. -/
theorem marketRun_not_collides : ¬ marketExtractor.extractor.CollidesIn marketConfig
    (accepted marketConfig tenEach marketRun) := by
  have hrun := marketRun_reached
  obtain ⟨hinj, hne⟩ := treePairs_injective standsFor_ones (ivFromDomain_one _) unpack_tenLeaf
    unpack_sevenLeaf marketNodes_nodup
  have hnodup := marketNotes_nodup
  simp only [List.nodup_cons, List.mem_cons, not_or] at hnodup
  rw [Extractor.CollidesIn, hrun.leaves, hrun.steps]
  intro hcoll
  cases hcoll with
  | notes hn hm hne heq =>
      rcases mem_market_noteSet.1 hn with rfl | rfl <;>
        rcases mem_market_noteSet.1 hm with rfl | rfl
      · exact hne rfl
      · exact hnodup.2.1.1 (marketNote_inj (hash_tenNote.symm.trans (heq.trans hash_sevenNote)))
      · exact hnodup.2.1.1
          (marketNote_inj (hash_tenNote.symm.trans (heq.symm.trans hash_sevenNote)))
      · exact hne rfl
  | zeroNote hn heq =>
      have hzero {v b : ℕ} (h : natPair (marketNote v b) = (0, 0)) : (0, 0) = marketNote v b :=
        (natPair_inj (marketNote_lt v b) ⟨baseModulus_prime.pos, baseModulus_prime.pos⟩
          (h.trans natPair_zero.symm)).symm
      rcases mem_market_noteSet.1 hn with rfl | rfl
      · exact hnodup.1.1 (hzero (hash_tenNote.symm.trans heq))
      · exact hnodup.1.2.1 (hzero (hash_sevenNote.symm.trans heq))
  | nodes hp hq hpq heq => exact hpq (hinj (market_pairSet hp) (market_pairSet hq) heq)
  | zeroNode hp heq => exact hne _ (market_pairSet hp) heq

/-- The deposit and the purchase of the market are in the books, and nothing collides. -/
theorem marketRun_books :
    v2Steps marketConfig (accepted marketConfig tenEach marketRun) =
        [.deposit [] 10 tenLeaf, .spend tenSpend] ∧
      @Accounted _ _ marketConfig.canonical _ marketExtractor.extractor
        (accepted marketConfig tenEach marketRun) :=
  ⟨marketRun_reached.steps, (circuits_keep_books marketExtractor (acceptingConfig oneBlake3)
    tenEach marketRun marketRun_canonical).resolve_right marketRun_not_collides⟩

end Example

end NullaRelay.ProofHub
