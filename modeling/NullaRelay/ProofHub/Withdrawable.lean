import NullaRelay.ProofHub.Solvency
import NullaRelay.ProofHub.ValidateUnsigned

/-!
# Unspent notes can be spent

The owner of a note whose leaf is in the tree and whose nullifier is unused can spend it
in the state at hand: the path is read off the tree, the prover fills a satisfying trace
for it, and the pallet accepts the call against the current root. A withdrawal is paid,
because the pool is solvent; a purchase leaves the change as a note of the new tree. A
full tree has the wrong root, so there must be room for one more leaf.
-/

namespace NullaRelay.ProofHub

open NullaRelay.Frame V2 Transition Air

attribute [local instance] neZeroSpendRows neZeroSpendColumns

variable {A L : Type} {P : Verifier.Primitives} {T : Config A L} {s s' : State L}
  {blake3 : List UInt8 → U8Array 32} {leaves : List (U8Array 32)}

variable (P) in
/-- The STARK prover finds a proof for every satisfying trace. -/
def StarkComplete : Prop :=
  ∀ (pi : SpendAir.SpendPI) (t : Trace BaseElement 8192 14),
    (SpendAir.spendAir P.blake3 pi).Satisfies t → ∃ proof, P.verifySpendAir proof pi = true

variable (P) in
/-- The owner of a key can sign with it. -/
structure CanSign (pk : List UInt8) : Prop where
  length : pk.length = 1312
  sign : ∀ message, ∃ signature, signature.length = 2420 ∧
    P.mlDsaVerify pk message signature = true

/-- The owner's authorization of given public inputs. -/
theorem CanSign.exists_auth {pk : List UInt8} (h : CanSign P pk) (domain : String)
    (pi : List UInt8) : ∃ auth, Verifier.verifySigned P domain auth pi = true ∧
      auth.take 1312 = pk ∧ 1312 ≤ auth.length := by
  obtain ⟨signature, hlen, hverify⟩ :=
    h.sign (P.blake3 (byteString domain ++ pi))
  have htake : (pk ++ signature).take 1312 = pk := List.take_left' h.length
  have hdrop : (pk ++ signature).drop 1312 = signature := List.drop_left' h.length
  have hlength : (pk ++ signature).length = 1312 + 2420 := by
    rw [List.length_append, h.length, hlen]
  refine ⟨pk ++ signature, Verifier.verifySigned_eq_true.2 ⟨hlength, ?_⟩, htake, by omega⟩
  rw [Verifier.dilithiumPkLen, htake, hdrop]
  exact hverify

section Proofs

variable {v : UInt64} {b pkd : U8Array 32} {i : ℕ}
  (hcomplete : StarkComplete P)
  (hleaf : leaves[i]? = some (noteHash (poseidonHashes P.blake3) v b pkd))
  (hroom : leaves.length < 2 ^ merkleDepth)

include hcomplete hleaf hroom

/-- A balanced spend of the note has a proof against the root of the tree. -/
theorem exists_spend_proof {cv priceOrAmount mode : UInt64} {cb cpkd : U8Array 32}
    (hbal : SpendAir.Balanced (treeWitness P.blake3 leaves i v b pkd cv cb cpkd) priceOrAmount
      mode) : ∃ proof, P.verifySpendAir proof
        { root := treeRoot (merkleHash2 (poseidonHashes P.blake3)) leaves
          nullifier := nullifierHash (poseidonHashes P.blake3) b
          pkd
          priceOrAmount
          changeLeaf := noteHash (poseidonHashes P.blake3) cv cb cpkd
          changePkd := cpkd
          mode } = true := by
  obtain ⟨proof, hproof⟩ := hcomplete _ _ hbal.satisfies
  rw [provePublicInputs_treeWitness hleaf hroom hbal] at hproof
  exact ⟨proof, hproof⟩

/-- A withdrawal of the note has a proof. -/
theorem exists_withdrawal_proof : ∃ proof, Verifier.verifySpendV2 P proof
    (treeRoot (merkleHash2 (poseidonHashes P.blake3)) leaves)
    (nullifierHash (poseidonHashes P.blake3) b) pkd v
    (zeroChangeLeaf (poseidonHashes P.blake3)) (U8Array.zero 32) false = true := by
  have hbal : SpendAir.Balanced
      (treeWitness P.blake3 leaves i v b pkd 0 (U8Array.zero 32) (U8Array.zero 32)) v 0 :=
    .inr ⟨rfl, rfl, rfl, rfl, rfl⟩
  exact exists_spend_proof hcomplete hleaf hroom hbal

/-- A purchase that leaves the rest of the value as change has a proof. -/
theorem exists_purchase_proof {price cv : UInt64} (hv : v.toNat = cv.toNat + price.toNat)
    (cb cpkd : U8Array 32) : ∃ proof, Verifier.verifySpendV2 P proof
      (treeRoot (merkleHash2 (poseidonHashes P.blake3)) leaves)
      (nullifierHash (poseidonHashes P.blake3) b) pkd price
      (noteHash (poseidonHashes P.blake3) cv cb cpkd) cpkd true = true := by
  have hbal : SpendAir.Balanced (treeWitness P.blake3 leaves i v b pkd cv cb cpkd) price 1 :=
    .inl ⟨rfl, hv⟩
  exact exists_spend_proof hcomplete hleaf hroom hbal

end Proofs

/-- The public inputs of a withdrawal of the whole note against the current root. -/
def State.withdrawal (s : State L) (H : Hashes) (v : UInt64) (b destination : U8Array 32)
    (txId : U8Array 16) : WithdrawPublicV2 where
  merkleRoot := s.currentRootV2
  nullifier := nullifierHash H b
  amount := v
  destination
  txId

/-- The public inputs of a purchase against the current root; the change is the rest of
the note. -/
def State.purchase (s : State L) (H : Hashes) (v price : UInt64) (b id : U8Array 32)
    (txId : U8Array 16) (ownershipCommitment cb cpkd : U8Array 32) : SpendPublicV2 where
  merkleRoot := s.currentRootV2
  nullifier := nullifierHash H b
  rwaId := id
  txId
  ownershipCommitment
  changeLeaf := noteHash H (v - price) cb cpkd
  changePkd := cpkd

section Spend

variable {pk : List UInt8} {v : UInt64} {b : U8Array 32} {i : ℕ}
  (hcomplete : StarkComplete P) (hsign : CanSign P pk)
  (htree : KeepsTree (merkleHash2 (poseidonHashes P.blake3)) s leaves)
  (hleaf : leaves[i]? = some (noteHash (poseidonHashes P.blake3) v b (pkDigest P.blake3 pk)))
  (hroom : leaves.length < 2 ^ merkleDepth)
  (hunused : s.nullifierUsed (nullifierHash (poseidonHashes P.blake3) b) = false)

include hcomplete hsign htree hleaf hroom hunused

/-- The owner's withdrawal goes through as soon as the pool can pay it. -/
theorem withdrawV2_succeeds (destination : U8Array 32) (txId : U8Array 16) {dest : A} {ledger : L}
    (hdest : T.decodeAccount destination.toList = some dest)
    (hpay : T.currency.transfer s.ledger T.poolAccount dest v.toNat .allowDeath = some ledger) :
    ∃ auth proof s', apply (T.wired P) s (.none, .withdrawV2 auth
        (s.withdrawal (poseidonHashes P.blake3) v b destination txId).encode proof) = .ok s' ∧
      s'.ledger = ledger := by
  obtain ⟨auth, hsigned, hpk, hlen⟩ := hsign.exists_auth "nulla_withdraw_auth_v2"
    (s.withdrawal (poseidonHashes P.blake3) v b destination txId).encode
  obtain ⟨proof, hproof⟩ := exists_withdrawal_proof hcomplete hleaf hroom
  rw [← htree.current, ← hpk] at hproof
  have hspend : Spendable (T.wired P) s auth
      (s.withdrawal (poseidonHashes P.blake3) v b destination txId).encode proof s.currentRootV2
      (nullifierHash (poseidonHashes P.blake3) b) v
      (T.wired P).proofVerifier.v2ZeroChangeLeaf (U8Array.zero 32) true :=
    ⟨hunused, .inl rfl, hsigned, hlen, hproof⟩
  exact ⟨auth, proof, _, withdrawV2_eq_ok.2 ⟨rfl, _, WithdrawPublicV2.decode_encode _, hspend, _,
    payFromPool_eq_ok.2 ⟨dest, hdest, ledger, hpay, rfl⟩, rfl⟩, rfl⟩

/-- What the owner of a note that covers a price can show for a purchase. -/
theorem exists_purchase_auth {price : UInt64} (hle : price ≤ v) (id : U8Array 32)
    (txId : U8Array 16) (ownershipCommitment cb cpkd : U8Array 32) : ∃ auth proof,
      Spendable (T.wired P) s auth (s.purchase (poseidonHashes P.blake3) v price b id txId
          ownershipCommitment cb cpkd).encode proof s.currentRootV2
        (nullifierHash (poseidonHashes P.blake3) b) price
        (noteHash (poseidonHashes P.blake3) (v - price) cb cpkd) cpkd false := by
  obtain ⟨auth, hsigned, hpk, hlen⟩ := hsign.exists_auth "nulla_spend_auth_v2"
    (s.purchase (poseidonHashes P.blake3) v price b id txId ownershipCommitment cb cpkd).encode
  have hvalue : v.toNat = (v - price).toNat + price.toNat := by
    have hle : price.toNat ≤ v.toNat := UInt64.le_iff_toNat_le.1 hle
    rw [UInt64.toNat_sub_of_le _ _ hle]
    omega
  obtain ⟨proof, hproof⟩ := exists_purchase_proof hcomplete hleaf hroom hvalue cb cpkd
  rw [← htree.current, ← hpk] at hproof
  exact ⟨auth, proof, hunused, .inl rfl, hsigned, hlen, hproof⟩

/-- The owner's purchase of an asset that the note covers. -/
theorem purchaseRwaV2_succeeds {id : U8Array 32} (hprice : 0 < s.rwaPrices id)
    (hle : s.rwaPrices id ≤ v) (txId : U8Array 16) {ownershipCommitment cb cpkd : U8Array 32}
    (hnew : noteHash (poseidonHashes P.blake3) (v - s.rwaPrices id) cb cpkd ∉ leaves) :
    ∃ auth proof s', apply (T.wired P) s (.none, .purchaseRwaV2 auth
        (s.purchase (poseidonHashes P.blake3) v (s.rwaPrices id) b id txId ownershipCommitment cb
          cpkd).encode proof) = .ok s' ∧
      KeepsTree (merkleHash2 (poseidonHashes P.blake3)) s'
        (leaves ++ [noteHash (poseidonHashes P.blake3) (v - s.rwaPrices id) cb cpkd]) := by
  obtain ⟨auth, proof, hspend⟩ := exists_purchase_auth (T := T) hcomplete hsign htree hleaf hroom
    hunused hle id txId ownershipCommitment cb cpkd
  obtain ⟨s₁, hins, -⟩ := exists_v2Insert (T := T.wired P) rfl htree hroom hnew _
  have hok : apply (T.wired P) s (.none, .purchaseRwaV2 auth
      (s.purchase (poseidonHashes P.blake3) v (s.rwaPrices id) b id txId ownershipCommitment cb
        cpkd).encode proof) = .ok _ :=
    purchaseRwaV2_eq_ok.2 ⟨rfl, _, SpendPublicV2.decode_encode _, hprice, hspend, s₁, hins, rfl⟩
  have hkept := htree.step rfl (effect_of_apply hok)
  rw [Call.footprint, SpendPublicV2.decode_encode] at hkept
  exact ⟨auth, proof, _, hok, hkept⟩

/-- The owner's purchase of access to an app that the note covers and the pool can pay. -/
theorem purchaseAccessV2_succeeds {id : U8Array 32} {cfg : AppConfig} {dest : A} {ledger : L}
    (happ : s.accessKeyConfigs id = some cfg) (hprice : 0 < cfg.price) (hle : cfg.price ≤ v)
    (hdest : T.decodeAccount cfg.paymentAccount.toList = some dest)
    (hpay : T.currency.transfer s.ledger T.poolAccount dest cfg.price.toNat .allowDeath =
      some ledger)
    (txId : U8Array 16) {ownershipCommitment cb cpkd : U8Array 32}
    (hnew : noteHash (poseidonHashes P.blake3) (v - cfg.price) cb cpkd ∉ leaves) :
    ∃ auth proof s', apply (T.wired P) s (.none, .purchaseAccessV2 auth
        (s.purchase (poseidonHashes P.blake3) v cfg.price b id txId ownershipCommitment cb
          cpkd).encode proof) = .ok s' ∧
      KeepsTree (merkleHash2 (poseidonHashes P.blake3)) s'
        (leaves ++ [noteHash (poseidonHashes P.blake3) (v - cfg.price) cb cpkd]) ∧
      s'.ledger = ledger := by
  obtain ⟨auth, proof, hspend⟩ := exists_purchase_auth (T := T) hcomplete hsign htree hleaf hroom
    hunused hle id txId ownershipCommitment cb cpkd
  obtain ⟨s₁, hins, hledger⟩ := exists_v2Insert (T := T.wired P) rfl htree hroom hnew _
  rw [← hledger] at hpay
  have hok : apply (T.wired P) s (.none, .purchaseAccessV2 auth
      (s.purchase (poseidonHashes P.blake3) v cfg.price b id txId ownershipCommitment cb
        cpkd).encode proof) = .ok _ :=
    purchaseAccessV2_eq_ok.2 ⟨rfl, _, cfg, SpendPublicV2.decode_encode _, happ, hprice, hspend, s₁,
      hins, _, payFromPool_eq_ok.2 ⟨dest, hdest, ledger, hpay, rfl⟩, rfl⟩
  have hkept := htree.step rfl (effect_of_apply hok)
  rw [Call.footprint, SpendPublicV2.decode_encode] at hkept
  exact ⟨auth, proof, _, hok, hkept, rfl⟩

end Spend

/-- The note of an unused nullifier is the one that the ledger has at its leaf, and no
spend has consumed it. -/
theorem Balanced.unspent_of_unused {H : Hashes} {V : ProofVerify} {X : Extractor H V}
    {steps : List V2Step} (h : Balanced X s leaves steps) {n : Note} {i : ℕ} {leaf : U8Array 32}
    (hinj : Set.InjOn (Note.hash H) (insert n (X.noteSet steps)))
    (hleaf : leaves[i]? = some leaf) (hhash : unpack leaf = n.hash H)
    (hunused : s.nullifierUsed (packPair (H.nullifier n.blinding)) = false) :
    (X.notes steps)[i]? = some n ∧ i ∉ X.consumed steps := by
  have hnote : (X.notes steps)[i]? = some n := by
    have hget := congrArg (fun l => l[i]?) h.opened
    simp only [List.getElem?_map, hleaf, Option.map_some] at hget
    obtain ⟨m, hm, heq⟩ := Option.map_eq_some_iff.1 hget.symm
    have hmem : m ∈ X.noteSet steps := .inl (List.mem_of_getElem? hm)
    rw [hm, hinj (Set.mem_insert_of_mem n hmem) (Set.mem_insert n _) (heq.trans hhash)]
  refine ⟨hnote, fun hconsumed => ?_⟩
  obtain ⟨o, ho, rfl⟩ := List.mem_map.1 hconsumed
  have hsame : o.note = n := Option.some.inj ((h.placed o ho).symm.trans hnote)
  have hused := h.marked o ho
  rw [hsame, hunused] at hused
  cases hused

/-- Where nothing collides, the pool covers a note in the tree whose nullifier is unused. -/
theorem covered_of_unused [DecidableEq A] {free : L → A → ℕ} (W : StarkExtractor P)
    (T : Config A L) (hmoves : T.currency.Moves free) (ledger : L) (steps : List (ChainStep A L))
    (hpool : ∀ e ∈ history (chainStep (T.wired P)) (genesis ledger) steps,
      e.2.LeavesPool T free e.1)
    (hcanon : ∀ e ∈ accepted (T.wired P) ledger steps, CanonicalNullifier e.2.2)
    {v : UInt64} {b pkd : U8Array 32} {i : ℕ}
    (hleaf : (newLeaves (accepted (T.wired P) ledger steps))[i]? =
      some (noteHash (poseidonHashes P.blake3) v b pkd))
    (hunused : (reached (T.wired P) ledger steps).nullifierUsed
      (nullifierHash (poseidonHashes P.blake3) b) = false)
    (hcoll : ¬ Collides (poseidonHashes P.blake3)
      (insert (noteOfBytes v b pkd)
        (W.extractor.noteSet (v2Steps (T.wired P) (accepted (T.wired P) ledger steps))))
      (W.extractor.pairSet (newLeaves (accepted (T.wired P) ledger steps))
        (v2Steps (T.wired P) (accepted (T.wired P) ledger steps)))) :
    v.toNat ≤ free (reached (T.wired P) ledger steps).ledger T.poolAccount := by
  have hinj := injectiveOn_of_not_collides hcoll
  have hfree : ¬ W.extractor.CollidesIn (T.wired P) (accepted (T.wired P) ledger steps) :=
    fun h => hcoll (h.mono (Set.subset_insert _ _))
  have hbal := balanced_of_not_collides W T ledger steps hcanon hfree
  obtain ⟨hnote, hfresh⟩ := hbal.unspent_of_unused hinj.note_inj hleaf (unpack_noteHash _ _ _ _)
    hunused
  have hvalue := Unspent.value_le_unspent (fun n : Note => n.value.toNat) hnote hfresh
  have hsolvent := solvent_of_not_collides W T hmoves ledger steps hpool hcanon hfree
  exact hvalue.trans (le_trans (Nat.le_add_left _ _) hsolvent)

/-- In every state with room in the tree that a run of the runtime reaches, the owner of a
note in the tree whose nullifier is unused can withdraw its whole value: the transaction
pool admits and dispatch accepts a withdrawal, and the ledger pays it, unless notes or tree
nodes collide. -/
theorem unspent_note_withdrawable [DecidableEq A] {free : L → A → ℕ} (W : StarkExtractor P)
    (hcomplete : StarkComplete P) (T : Config A L) (hmoves : T.currency.Moves free) (ledger : L)
    (steps : List (ChainStep A L))
    (hpool : ∀ e ∈ history (chainStep (T.wired P)) (genesis ledger) steps,
      e.2.LeavesPool T free e.1)
    (hcanon : ∀ e ∈ accepted (T.wired P) ledger steps, CanonicalNullifier e.2.2)
    {pk : List UInt8} (hsign : CanSign P pk) {v : UInt64} {b : U8Array 32} {i : ℕ}
    (hleaf : (newLeaves (accepted (T.wired P) ledger steps))[i]? =
      some (noteHash (poseidonHashes P.blake3) v b (pkDigest P.blake3 pk)))
    (hroom : (newLeaves (accepted (T.wired P) ledger steps)).length < 2 ^ merkleDepth)
    (hunused : (reached (T.wired P) ledger steps).nullifierUsed
      (nullifierHash (poseidonHashes P.blake3) b) = false)
    (destination : U8Array 32) (txId : U8Array 16) {dest : A}
    (hdest : T.decodeAccount destination.toList = some dest)
    (hpays : ∀ l, v.toNat ≤ free l T.poolAccount →
      ∃ l', T.currency.transfer l T.poolAccount dest v.toNat .allowDeath = some l') :
    (∃ auth proof valid s',
        validateUnsigned (reached (T.wired P) ledger steps) (.withdrawV2 auth
          ((reached (T.wired P) ledger steps).withdrawal (poseidonHashes P.blake3) v b destination
            txId).encode proof) = .ok valid ∧
        apply (T.wired P) (reached (T.wired P) ledger steps) (.none, .withdrawV2 auth
          ((reached (T.wired P) ledger steps).withdrawal (poseidonHashes P.blake3) v b destination
            txId).encode proof) = .ok s' ∧
        T.currency.transfer (reached (T.wired P) ledger steps).ledger T.poolAccount dest v.toNat
          .allowDeath = some s'.ledger) ∨
      Collides (poseidonHashes P.blake3)
        (insert (noteOfBytes v b (pkDigest P.blake3 pk))
          (W.extractor.noteSet (v2Steps (T.wired P) (accepted (T.wired P) ledger steps))))
        (W.extractor.pairSet (newLeaves (accepted (T.wired P) ledger steps))
          (v2Steps (T.wired P) (accepted (T.wired P) ledger steps))) := by
  refine or_iff_not_imp_right.2 fun hcoll => ?_
  have htree := chain_keepsTree (T := T.wired P) rfl ledger steps
  obtain ⟨ledger', hpay⟩ := hpays _
    (covered_of_unused W T hmoves ledger steps hpool hcanon hleaf hunused hcoll)
  obtain ⟨auth, proof, s', hok, hledger⟩ := withdrawV2_succeeds hcomplete hsign htree hleaf hroom
    hunused destination txId hdest hpay
  obtain ⟨valid, hvalid⟩ := validateUnsigned_of_apply hok
  exact ⟨auth, proof, valid, s', hvalid, hok, hledger ▸ hpay⟩

section Example

theorem ideal_starkComplete (blake3 : List UInt8 → U8Array 32) :
    StarkComplete (idealPrimitives blake3) :=
  fun _ t ht => ⟨[], ideal_verifySpendAir.2 ⟨t, ht⟩⟩

theorem ideal_canSign (blake3 : List UInt8 → U8Array 32) :
    CanSign (idealPrimitives blake3) (List.replicate 1312 0) where
  length := List.length_replicate
  sign _ := ⟨List.replicate 2420 0, List.length_replicate, rfl⟩

/-- The owner of the seven. -/
def marketKey : List UInt8 := List.replicate 1312 0

theorem pkDigest_marketKey :
    pkDigest (idealPrimitives oneBlake3).blake3 marketKey = U8Array.ofNat 32 1 := by
  show oneBlake3 _ = _
  rw [oneBlake3]

theorem marketRun_sevenLeaf : (newLeaves (accepted marketConfig tenEach marketRun))[1]? =
    some (noteHash marketHashes 7 (U8Array.ofNat 32 1)
      (pkDigest (idealPrimitives oneBlake3).blake3 marketKey)) := by
  rw [marketRun_reached.leaves, pkDigest_marketKey]
  unfold sevenLeaf
  rfl

theorem marketRun_room :
    (newLeaves (accepted marketConfig tenEach marketRun)).length < 2 ^ merkleDepth := by
  rw [marketRun_reached.leaves]
  norm_num [merkleDepth]

/-- The seven are one of the notes of the market, and nothing collides there. -/
theorem market_seven_not_collides : ¬ Collides marketHashes
    (insert (noteOfBytes 7 (U8Array.ofNat 32 1)
        (pkDigest (idealPrimitives oneBlake3).blake3 marketKey))
      (marketExtractor.extractor.noteSet
        (v2Steps marketConfig (accepted marketConfig tenEach marketRun))))
    (marketExtractor.extractor.pairSet (newLeaves (accepted marketConfig tenEach marketRun))
      (v2Steps marketConfig (accepted marketConfig tenEach marketRun))) := by
  have hmem : sevenNote ∈ marketExtractor.extractor.noteSet
      (v2Steps marketConfig (accepted marketConfig tenEach marketRun)) := by
    rw [marketRun_reached.steps]
    exact mem_market_noteSet.2 (.inr rfl)
  rw [pkDigest_marketKey, ← sevenNote, Set.insert_eq_of_mem hmem]
  exact marketRun_not_collides

/-- The withdrawal of the seven to the account four. -/
noncomputable def sevenWithdrawal : List UInt8 :=
  ((reached marketConfig tenEach marketRun).withdrawal marketHashes 7 (U8Array.ofNat 32 1)
    (U8Array.ofNat 32 4) (U8Array.zero 16)).encode

/-- The change of the market's purchase is withdrawn. -/
theorem marketRun_withdrawable : ∃ auth proof valid s',
    validateUnsigned (reached marketConfig tenEach marketRun)
      (.withdrawV2 auth sevenWithdrawal proof) = .ok valid ∧
    apply marketConfig (reached marketConfig tenEach marketRun)
      (.none, .withdrawV2 auth sevenWithdrawal proof) = .ok s' ∧
    balances.transfer (reached marketConfig tenEach marketRun).ledger (U8Array.zero 32)
      (U8Array.ofNat 32 4) 7 .allowDeath = some s'.ledger :=
  (unspent_note_withdrawable marketExtractor (ideal_starkComplete _) (acceptingConfig oneBlake3)
    balances_moves tenEach marketRun marketRun_leavesPool marketRun_canonical (ideal_canSign _)
    marketRun_sevenLeaf marketRun_room marketRun_reached.unused (U8Array.ofNat 32 4)
    (U8Array.zero 16) rfl
    fun _ hl => ⟨_, balances_transfer_of_le hl (U8Array.ofNat 32 4) .allowDeath⟩).resolve_right
      market_seven_not_collides

end Example

/-- In every state with room in the tree that a run of the runtime reaches, the owner of a
note in the tree whose nullifier is unused can buy what the note covers with a change that
is new: any asset on sale, and, unless notes or tree nodes collide, access to any app whose
account can be paid. The change becomes the next leaf of the tree. -/
theorem unspent_note_buys [DecidableEq A] {free : L → A → ℕ} (W : StarkExtractor P)
    (hcomplete : StarkComplete P) (T : Config A L) (hmoves : T.currency.Moves free) (ledger : L)
    (steps : List (ChainStep A L))
    (hpool : ∀ e ∈ history (chainStep (T.wired P)) (genesis ledger) steps,
      e.2.LeavesPool T free e.1)
    (hcanon : ∀ e ∈ accepted (T.wired P) ledger steps, CanonicalNullifier e.2.2)
    (hs : reached (T.wired P) ledger steps = s)
    (hleaves : newLeaves (accepted (T.wired P) ledger steps) = leaves)
    {pk : List UInt8} (hsign : CanSign P pk) {v : UInt64} {b : U8Array 32} {i : ℕ}
    (hleaf : leaves[i]? =
      some (noteHash (poseidonHashes P.blake3) v b (pkDigest P.blake3 pk)))
    (hroom : leaves.length < 2 ^ merkleDepth)
    (hunused : s.nullifierUsed (nullifierHash (poseidonHashes P.blake3) b) = false)
    (id : U8Array 32) (txId : U8Array 16) (ownershipCommitment cb cpkd : U8Array 32) :
    (0 < s.rwaPrices id → s.rwaPrices id ≤ v →
      noteHash (poseidonHashes P.blake3) (v - s.rwaPrices id) cb cpkd ∉ leaves →
      ∃ auth proof valid s',
        validateUnsigned s (.purchaseRwaV2 auth (s.purchase (poseidonHashes P.blake3) v
          (s.rwaPrices id) b id txId ownershipCommitment cb cpkd).encode proof) = .ok valid ∧
        apply (T.wired P) s (.none, .purchaseRwaV2 auth (s.purchase (poseidonHashes P.blake3) v
          (s.rwaPrices id) b id txId ownershipCommitment cb cpkd).encode proof) = .ok s' ∧
        KeepsTree (merkleHash2 (poseidonHashes P.blake3)) s'
          (leaves ++ [noteHash (poseidonHashes P.blake3) (v - s.rwaPrices id) cb cpkd])) ∧
    ∀ cfg dest, s.accessKeyConfigs id = some cfg → 0 < cfg.price → cfg.price ≤ v →
      noteHash (poseidonHashes P.blake3) (v - cfg.price) cb cpkd ∉ leaves →
      T.decodeAccount cfg.paymentAccount.toList = some dest →
      (∀ l, cfg.price.toNat ≤ free l T.poolAccount →
        ∃ l', T.currency.transfer l T.poolAccount dest cfg.price.toNat .allowDeath = some l') →
      (∃ auth proof valid s',
        validateUnsigned s (.purchaseAccessV2 auth (s.purchase (poseidonHashes P.blake3) v
          cfg.price b id txId ownershipCommitment cb cpkd).encode proof) = .ok valid ∧
        apply (T.wired P) s (.none, .purchaseAccessV2 auth (s.purchase (poseidonHashes P.blake3) v
          cfg.price b id txId ownershipCommitment cb cpkd).encode proof) = .ok s' ∧
        KeepsTree (merkleHash2 (poseidonHashes P.blake3)) s'
          (leaves ++ [noteHash (poseidonHashes P.blake3) (v - cfg.price) cb cpkd]) ∧
        T.currency.transfer s.ledger T.poolAccount dest cfg.price.toNat .allowDeath =
          some s'.ledger) ∨
      Collides (poseidonHashes P.blake3)
        (insert (noteOfBytes v b (pkDigest P.blake3 pk))
          (W.extractor.noteSet (v2Steps (T.wired P) (accepted (T.wired P) ledger steps))))
        (W.extractor.pairSet leaves
          (v2Steps (T.wired P) (accepted (T.wired P) ledger steps))) := by
  subst hs hleaves
  have htree := chain_keepsTree (T := T.wired P) rfl ledger steps
  refine ⟨fun hprice hle hnew => ?_, fun cfg dest happ hprice hle hnew hdest hpays => ?_⟩
  · obtain ⟨auth, proof, s', hok, hkept⟩ := purchaseRwaV2_succeeds hcomplete hsign htree hleaf
      hroom hunused hprice hle txId hnew
    obtain ⟨valid, hvalid⟩ := validateUnsigned_of_apply hok
    exact ⟨auth, proof, valid, s', hvalid, hok, hkept⟩
  · refine or_iff_not_imp_right.2 fun hcoll => ?_
    have hcovered := covered_of_unused W T hmoves ledger steps hpool hcanon hleaf hunused hcoll
    obtain ⟨ledger', hpay⟩ := hpays _ ((UInt64.le_iff_toNat_le.1 hle).trans hcovered)
    obtain ⟨auth, proof, s', hok, hkept, hledger⟩ := purchaseAccessV2_succeeds hcomplete hsign
      htree hleaf hroom hunused happ hprice hle hdest hpay txId hnew
    obtain ⟨valid, hvalid⟩ := validateUnsigned_of_apply hok
    exact ⟨auth, proof, valid, s', hvalid, hok, hkept, hledger ▸ hpay⟩

section Example

/-- The leaf of a change that is neither of the two notes is new. -/
theorem marketLeaf_notMem {v : UInt64} (hten : marketNote v.toNat 1 ≠ marketNote 10 0)
    (hseven : marketNote v.toNat 1 ≠ marketNote 7 1) :
    noteHash marketHashes v (U8Array.ofNat 32 1) (U8Array.ofNat 32 1) ∉ [tenLeaf, sevenLeaf] := by
  intro hmem
  have hhash : unpack (noteHash marketHashes v (U8Array.ofNat 32 1) (U8Array.ofNat 32 1)) =
      natPair (marketNote v.toNat 1) :=
    (unpack_noteHash _ _ _ _).trans (note_marketNote v unpack_one)
  rcases List.mem_pair.1 hmem with h | h
  · rw [h, unpack_tenLeaf] at hhash
    exact hten (marketNote_inj hhash).symm
  · rw [h, unpack_sevenLeaf] at hhash
    exact hseven (marketNote_inj hhash).symm

/-- The public inputs of a purchase with the seven, for the asset or the app zero. -/
noncomputable def sevenPurchase (price : UInt64) : List UInt8 :=
  ((reached marketConfig tenEach marketRun).purchase marketHashes 7 price (U8Array.ofNat 32 1)
    (U8Array.zero 32) (U8Array.zero 16) (U8Array.zero 32) (U8Array.ofNat 32 1)
    (U8Array.ofNat 32 1)).encode

/-- The seven buy the asset, with a change of four, or access, with a change of three. -/
theorem marketRun_buys :
    (∃ auth proof valid s',
      validateUnsigned (reached marketConfig tenEach marketRun)
        (.purchaseRwaV2 auth (sevenPurchase 3) proof) = .ok valid ∧
      apply marketConfig (reached marketConfig tenEach marketRun)
        (.none, .purchaseRwaV2 auth (sevenPurchase 3) proof) = .ok s' ∧
      KeepsTree (merkleHash2 marketHashes) s' ([tenLeaf, sevenLeaf] ++
        [noteHash marketHashes 4 (U8Array.ofNat 32 1) (U8Array.ofNat 32 1)])) ∧
    ∃ auth proof valid s',
      validateUnsigned (reached marketConfig tenEach marketRun)
        (.purchaseAccessV2 auth (sevenPurchase 4) proof) = .ok valid ∧
      apply marketConfig (reached marketConfig tenEach marketRun)
        (.none, .purchaseAccessV2 auth (sevenPurchase 4) proof) = .ok s' ∧
      KeepsTree (merkleHash2 marketHashes) s' ([tenLeaf, sevenLeaf] ++
        [noteHash marketHashes 3 (U8Array.ofNat 32 1) (U8Array.ofNat 32 1)]) ∧
      balances.transfer (reached marketConfig tenEach marketRun).ledger (U8Array.zero 32)
        (U8Array.ofNat 32 3) 4 .allowDeath = some s'.ledger := by
  have hrun := marketRun_reached
  have hleaf := marketRun_sevenLeaf
  have hroom := marketRun_room
  have hfree := market_seven_not_collides
  rw [hrun.leaves] at hleaf hroom hfree
  obtain ⟨hrwa, haccess⟩ := unspent_note_buys marketExtractor (ideal_starkComplete _)
    (acceptingConfig oneBlake3) balances_moves tenEach marketRun marketRun_leavesPool
    marketRun_canonical rfl hrun.leaves (ideal_canSign _) hleaf hroom hrun.unused
    (U8Array.zero 32) (U8Array.zero 16) (U8Array.zero 32) (U8Array.ofNat 32 1) (U8Array.ofNat 32 1)
  have hnodup := marketNotes_nodup
  simp only [List.nodup_cons, List.mem_cons, not_or] at hnodup
  have hfour : (7 : UInt64) - 3 = 4 := by decide
  have hthree : (7 : UInt64) - 4 = 3 := by decide
  have haccess := haccess _ (U8Array.ofNat 32 3) hrun.app (by decide) (by decide)
  rw [hrun.price, hfour] at hrwa
  rw [hthree] at haccess
  constructor
  · exact hrwa (by decide) (by decide)
      (marketLeaf_notMem (Ne.symm hnodup.2.1.2.1) (Ne.symm hnodup.2.2.1.1))
  · exact (haccess (marketLeaf_notMem (Ne.symm hnodup.2.1.2.2.1) (Ne.symm hnodup.2.2.1.2.1)) rfl
      fun l hl => ⟨_, balances_transfer_of_le hl (U8Array.ofNat 32 3) .allowDeath⟩).resolve_right
        hfree

end Example

end NullaRelay.ProofHub
