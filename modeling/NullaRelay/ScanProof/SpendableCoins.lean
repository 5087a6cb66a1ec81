import NullaRelay.ScanProof.CoinGroups
import NullaRelay.ScanProof.CoinProofs
import NullaRelay.ScanProof.Completeness
import NullaRelay.ScanProof.Marks

/-!
# Registered coins can be spent

A coin is registered with a proof about its point, and padding is made of points, so
that in every reachable state all coins of a padded group decode. The wallet's proof for
a registered coin of an unused serial is therefore accepted as long as the group does not
grow, and a full group never grows: a withdrawal is paid, and a purchase leaves the rest
of the value in a new registered coin.
-/

namespace NullaRelay.ScanProof

open NullaRelay.Frame Transition Chunks Verifier OneOfMany

variable {V : Type} [AddCommGroup V] [Module Scalar V] [DecidableEq V] {P : Primitives V}
  {A L : Type} {T : Config A L} {s s' : State L} {coins : List (U8Array 32)}

/-- A coin that joins a group was shown to be a point. -/
theorem newCoin_decodes (hT : T.proofVerifier = runtimeProofVerifier P)
    {x : Extrinsic A T.maxRangeProofSize} (h : apply T s x = .ok s') {coin : U8Array 32}
    (hcoin : x.call.newCoin = some coin) : (P.decompress coin).isSome := by
  have hcall := (apply_eq_ok.1 h).2
  have hconverted {s : State L} {pi g : List UInt8} {inputs : CoinSpendPublic}
      (hnew : inputs.newCoin = some coin) (h : ChangeConverted T s pi inputs g) :
      (P.decompress coin).isSome := by
    have hpok := (h coin hnew).2
    rw [hT] at hpok
    obtain ⟨-, nc, -, -, -, hnc, -⟩ := verifyG1Pok_eq_true.1 hpok
    rw [hnc]
    rfl
  generalize x.call = call at hcoin hcall
  cases call with
  | depositCoin c amount p =>
      cases hcoin
      obtain ⟨_, -, -, hopen, -⟩ := depositCoin_eq_ok.1 hcall
      rw [hT] at hopen
      obtain ⟨-, c, -, -, -, hc, -⟩ := verifyDepositOpen_eq_true.1 hopen
      rw [hc]
      rfl
  | purchaseCoin pi p g =>
      obtain ⟨-, inputs, hdec, -, -, -, t, hspend, -⟩ := purchaseCoin_eq_ok.1 hcall
      rw [Call.newCoin, hdec, Option.bind_some] at hcoin
      exact hconverted hcoin (spendCoin_eq_ok.1 hspend).2.2.1
  | purchaseAccessCoin pi p g =>
      obtain ⟨-, inputs, hdec, -, -, cfg, -, -, t, hspend, -⟩ := purchaseAccessCoin_eq_ok.1 hcall
      rw [Call.newCoin, hdec, Option.bind_some] at hcoin
      exact hconverted hcoin (spendCoin_eq_ok.1 hspend).2.2.1
  | _ => cases hcoin

theorem registeredCoins_decode (hT : T.proofVerifier = runtimeProofVerifier P) (s : State L)
    (xs : List (Extrinsic A T.maxRangeProofSize)) {coin : U8Array 32}
    (hcoin : coin ∈ registeredCoins (history (apply T) s xs)) : (P.decompress coin).isSome := by
  obtain ⟨e, he, hnew⟩ := List.mem_filterMap.1 hcoin
  obtain ⟨s', hok⟩ := ok_of_mem_history he
  exact newCoin_decodes hT hok hnew

omit [AddCommGroup V] [Module Scalar V] [DecidableEq V] in
theorem padGroup_decodes (hpoint : ∀ p, P.decompress (P.compress p) = some p)
    {group : List (U8Array 32)} (hgroup : ∀ c ∈ group, (P.decompress c).isSome) (g : UInt32) :
    ∀ c ∈ padGroup P group g, (P.decompress c).isSome := by
  intro c hc
  rcases List.mem_append.1 hc with hmem | hpad
  · exact hgroup c hmem
  · obtain ⟨k, -, rfl⟩ := List.mem_map.1 hpad
    rw [padCoin, hpoint]
    rfl

/-- What the prover returns is accepted. -/
theorem verify_of_prove (hpoint : ∀ p, P.decompress (P.compress p) = some p)
    (hsize : coins.length < 2 ^ 64) {index : ℕ} {serial change blinding seed : U8Array 32}
    {price : UInt64} {context proof : List UInt8}
    (h : prove P coins index serial price change blinding context seed = some proof) :
    verify P proof coins serial price change context = true := by
  obtain ⟨⟨htwo, hpow, hindex⟩, d, hd, hopen, rfl⟩ := prove_eq_some.1 h
  rw [verify_serialize hpoint htwo hpow hsize hd]
  exact decide_eq_true
    (verifyEquations_honest ((dSet_length hd).trans hpow) (hpow ▸ hindex) hopen)

section Proofs

variable (hpoint : ∀ p, P.decompress (P.compress p) = some p) {group : List (U8Array 32)}
  {index : ℕ} {serial blinding : U8Array 32} {value : UInt64}
  (hlen : group.length ≤ 1024) (hgroup : ∀ c ∈ group, (P.decompress c).isSome)
  (hget : group[index]? = some (coinCommit P serial value blinding))

include hpoint hlen hgroup hget

/-- The owner's proof that a coin of the group has a given rest over the price: the
blinding that it takes is the difference of the two. -/
theorem exists_spend_proof {price : UInt64} {change rest : U8Array 32} {ch : V}
    (hch : P.decompress change = some ch)
    (hrest : Scalar.ofU64 value • P.basepoint + Scalar.fromBytesModOrder blinding • generatorH P -
      Scalar.ofU64 price • P.basepoint - ch = Scalar.fromBytesModOrder rest • generatorH P)
    (g : UInt32) (context : List UInt8) (seed : U8Array 32) : ∃ proof,
      prove P (padGroup P group g) index serial price change rest context seed = some proof ∧
        verify P proof (padGroup P group g) serial price change context = true := by
  obtain ⟨htwo, hpow, hle⟩ := wellShaped_padGroup P hlen g
  have hindex : index < group.length := (List.getElem?_eq_some_iff.1 hget).1
  have hpad : (padGroup P group g)[index]? = some (coinCommit P serial value blinding) := by
    rw [padGroup, List.getElem?_append_left hindex]
    exact hget
  have hdecode : (padGroup P group g)[index]?.bind P.decompress =
      some (coinPoint P (Scalar.fromBytesModOrder serial) (Scalar.ofU64 value)
        (Scalar.fromBytesModOrder blinding)) := by
    rw [hpad]
    exact hpoint _
  have hopen : coinPoint P (Scalar.fromBytesModOrder serial) (Scalar.ofU64 value)
      (Scalar.fromBytesModOrder blinding) - Scalar.fromBytesModOrder serial • generatorG1 P -
        Scalar.ofU64 price • P.basepoint - ch =
          Scalar.fromBytesModOrder rest • generatorH P := by
    rw [← hrest, coinPoint]
    abel
  have hanswer :
      (prove P (padGroup P group g) index serial price change rest context seed).isSome :=
    isSome_prove_iff.2 ⟨⟨(padGroup P group g).length.log2, (Nat.le_log2 (by omega)).2 htwo, hpow⟩,
      (List.getElem?_eq_some_iff.1 hpad).1, padGroup_decodes hpoint hgroup g, _, ch, hdecode, hch,
      hopen⟩
  obtain ⟨proof, hproof⟩ := Option.isSome_iff_exists.1 hanswer
  exact ⟨proof, hproof, verify_of_prove hpoint (by omega) hproof⟩

/-- Without change the coin is worth the price. -/
theorem exists_withdrawal_proof (hzero : P.decompress (U8Array.zero 32) = some 0) (g : UInt32)
    (context : List UInt8) (seed : U8Array 32) : ∃ proof,
      prove P (padGroup P group g) index serial value (U8Array.zero 32) blinding context seed =
          some proof ∧
        verify P proof (padGroup P group g) serial value (U8Array.zero 32) context = true := by
  refine exists_spend_proof hpoint hlen hgroup hget hzero ?_ g context seed
  abel

/-- The rest of the value goes into the change. -/
theorem exists_purchase_proof {price : UInt64} (hle : price ≤ value) (changeBlinding : U8Array 32)
    (g : UInt32) (context : List UInt8) (seed : U8Array 32) : ∃ proof,
      prove P (padGroup P group g) index serial price
          (pedersenCommit P (value - price) changeBlinding)
          (Scalar.fromBytesModOrder blinding - Scalar.fromBytesModOrder changeBlinding).toBytes
          context seed = some proof ∧
        verify P proof (padGroup P group g) serial price
          (pedersenCommit P (value - price) changeBlinding) context = true := by
  refine exists_spend_proof hpoint hlen hgroup hget (hpoint _) ?_ g context seed
  have hvalue : Scalar.ofU64 value = Scalar.ofU64 (value - price) + Scalar.ofU64 price := by
    have hnat : value.toNat = (value - price).toNat + price.toNat := by
      have hle := UInt64.le_iff_toNat_le.1 hle
      rw [UInt64.toNat_sub_of_le _ _ hle]
      omega
    rw [Scalar.ofU64, Scalar.ofU64, Scalar.ofU64, hnat, Nat.cast_add]
  rw [Scalar.fromBytesModOrder_toBytes, hvalue]
  module

end Proofs

/-- A registered coin is in the group that its location names. -/
theorem Grouped.exists_location (h : Grouped s coins) {c : U8Array 32} (hc : c ∈ coins) :
    ∃ g i, s.coinLocation c = some (g, i) ∧ (s.coinGroup g).val[i.toNat]? = some c := by
  obtain ⟨g, i, hget⟩ := h.exists_place hc
  exact ⟨g, i, (h.coinLocation c g i).2 hget, by rwa [h.coinGroup]⟩

/-- All coins of a group are registered. -/
theorem Grouped.mem_of_mem_group (h : Grouped s coins) {g : UInt32} {c : U8Array 32}
    (hc : c ∈ (s.coinGroup g).val) : c ∈ coins := by
  rw [h.coinGroup] at hc
  exact List.mem_of_mem_drop (List.mem_of_mem_take hc)

/-- Below a full `u32` of groups the open group has room. -/
theorem Grouped.room (h : Grouped s coins) (hlen : coins.length < 1024 * 2 ^ 32) :
    (s.coinGroup (openGroup s)).val.length < 1024 := by
  have hcurrent := h.currentGroup
  have hsize := s.currentGroup.toNat_lt
  unfold openGroup
  rw [h.coinGroup, h.coinGroup, length_chunk, length_chunk]
  split_ifs with hfull
  · have hnext : (s.currentGroup + 1).toNat = s.currentGroup.toNat + 1 := by
      rw [UInt32.toNat_add, UInt32.toNat_one]
      omega
    rw [hnext]
    omega
  · exact not_le.1 hfull

/-- A full group is as it was in every later state. -/
theorem CoinsKept.coinGroup_eq (h : CoinsKept s s') {g : UInt32}
    (hfull : (s.coinGroup g).val.length = 1024) : s'.coinGroup g = s.coinGroup g := by
  obtain ⟨more, hmore⟩ := h.groups g
  have hle : (s'.coinGroup g).val.length ≤ 1024 := (s'.coinGroup g).property
  have hlength := congrArg List.length hmore
  rw [List.length_append] at hlength
  have hnil : more = [] := List.eq_nil_of_length_eq_zero (by omega)
  rw [hnil, List.append_nil] at hmore
  exact Subtype.ext hmore.symm

theorem coinGroups_isSome {g : UInt32} {c : U8Array 32} (hc : c ∈ (s.coinGroup g).val) :
    (s.coinGroups g).isSome := by
  by_contra hnone
  rw [State.coinGroup, Option.not_isSome_iff_eq_none.1 hnone] at hc
  cases hc

/-- The public inputs of a withdrawal of a whole coin. -/
def wholeCoin (g : UInt32) (serial : U8Array 32) (value : UInt64) (destination : U8Array 32)
    (txId : U8Array 16) : CoinWithdrawPublic where
  groupId := g
  serial
  amount := value
  destination
  txId

/-- A withdrawal that is proved for the group of the state, and that the pool can pay. -/
theorem withdrawCoin_succeeds (hT : T.proofVerifier = runtimeProofVerifier P) {g : UInt32}
    {serial destination coin : U8Array 32} {value : UInt64} {txId : U8Array 16}
    {proof : List UInt8} {dest : A} {ledger : L} (hcoin : coin ∈ (s.coinGroup g).val)
    (hproof : verify P proof (padGroup P (s.coinGroup g).val g) serial value (U8Array.zero 32)
      (T.blake2_256 (wholeCoin g serial value destination txId).encode).toList = true)
    (hunused : s.serialUsed serial = false) (hdest : T.decodeAccount destination.toList = some dest)
    (hpay : T.currency.transfer s.ledger T.poolAccount dest value.toNat .allowDeath =
      some ledger) :
    ∃ s', apply T s (.unsigned (.withdrawCoin
      (wholeCoin g serial value destination txId).encode proof)) = .ok s' ∧
        s'.ledger = ledger := by
  have hgroup := coinGroups_isSome hcoin
  have hverify : T.proofVerifier.verifyOneOfMany proof
      (T.proofVerifier.padGroup (s.coinGroup g).val g) serial value (U8Array.zero 32)
      (T.blake2_256 (wholeCoin g serial value destination txId).encode).toList = true := by
    rw [hT]
    exact hproof
  have hvalid : ∃ v, validateUnsigned T s (.withdrawCoin
      (wholeCoin g serial value destination txId).encode proof) = .ok v := by
    simp [validateUnsigned, validateCoinWithdraw, validateCoin, wholeCoin, hunused, hgroup]
  refine ⟨_, apply_eq_ok.2 ⟨?_, withdrawCoin_eq_ok.2 ⟨rfl, _, CoinWithdrawPublic.decode_encode _,
    hunused, hgroup, hverify, dest, hdest, ledger, hpay, rfl⟩⟩, rfl⟩
  rintro c ⟨⟩
  exact hvalid

/-- The owner of a registered coin can withdraw it in every later state in which its
serial is unused: the wallet's proof stays good until the group grows, a full group never
grows, and the pool pays the whole value. -/
theorem coin_withdrawable (hpoint : ∀ p, P.decompress (P.compress p) = some p)
    (hzero : P.decompress (U8Array.zero 32) = some 0) (T : Config A L)
    (hT : T.proofVerifier = runtimeProofVerifier P) (ledger : L)
    (xs ys : List (Extrinsic A T.maxRangeProofSize))
    (hs : run (apply T) (genesis ledger) xs = s) (hs' : run (apply T) s ys = s')
    {serial blinding : U8Array 32} {value : UInt64}
    (hcoin : coinCommit P serial value blinding ∈
      registeredCoins (history (apply T) (genesis ledger) xs))
    (destination : U8Array 32) (txId : U8Array 16) (seed : U8Array 32) :
    ∃ g i proof, s.coinLocation (coinCommit P serial value blinding) = some (g, i) ∧
      prove P (padGroup P (s.coinGroup g).val g) i.toNat serial value (U8Array.zero 32) blinding
          (T.blake2_256 (wholeCoin g serial value destination txId).encode).toList seed =
        some proof ∧
      (g < s.currentGroup → s'.coinGroup g = s.coinGroup g) ∧
      ∀ dest ledger', s'.coinGroup g = s.coinGroup g → s'.serialUsed serial = false →
        T.decodeAccount destination.toList = some dest →
        T.currency.transfer s'.ledger T.poolAccount dest value.toNat .allowDeath =
            some ledger' →
          ∃ s'', apply T s' (.unsigned (.withdrawCoin
            (wholeCoin g serial value destination txId).encode proof)) = .ok s'' ∧
              s''.ledger = ledger' := by
  have hgrouped := @grouped_run A L T _ [] (grouped_genesis ledger) xs
  have hlater := grouped_run (T := T) hgrouped ys
  rw [registeredCoins, List.filterMap_append] at hlater
  have hkept := hgrouped.kept hlater
  rw [hs, hs'] at hkept
  rw [hs] at hgrouped
  obtain ⟨g, i, hlocation, hget⟩ := hgrouped.exists_location hcoin
  have hdecode (c : U8Array 32) (hc : c ∈ (s.coinGroup g).val) : (P.decompress c).isSome :=
    registeredCoins_decode hT (genesis ledger) xs (hgrouped.mem_of_mem_group hc)
  obtain ⟨proof, hproof, hverify⟩ := exists_withdrawal_proof hpoint (s.coinGroup g).property
    hdecode hget hzero g
    (T.blake2_256 (wholeCoin g serial value destination txId).encode).toList seed
  refine ⟨g, i, proof, hlocation, hproof, fun hlt => ?_, fun dest ledger' hsame hunused hdest
    hpay => ?_⟩
  · exact hkept.coinGroup_eq ((hgrouped.exact P).below g hlt)
  · have hmem : coinCommit P serial value blinding ∈ (s'.coinGroup g).val := by
      rw [hsame]
      exact List.mem_of_getElem? hget
    rw [← hsame] at hverify
    exact withdrawCoin_succeeds hT hmem hverify hunused hdest hpay

section Example

/-- The pallet over the verifier, with points as scalars. -/
noncomputable def scalarConfig : Config (U8Array 32) (U8Array 32 → ℕ) :=
  vectorConfig.withVerifier (runtimeProofVerifier scalarPrimitives)

theorem scalar_decompress_zero : scalarPrimitives.decompress (U8Array.zero 32) = some 0 := by
  have hbytes : Scalar.toBytes 0 = U8Array.zero 32 := by decide
  rw [← hbytes, scalar_decompress, Scalar.fromCanonicalBytes_toBytes]

def tenFunds (_ : U8Array 32) : ℕ := 10

/-- A coin of value ten. -/
def coinOfTen : U8Array 32 :=
  coinCommit scalarPrimitives (U8Array.ofNat 32 4) 10 (U8Array.ofNat 32 8)

/-- The account two deposits the coin. -/
def depositOfTen (proof : List UInt8) : Extrinsic (U8Array 32) scalarConfig.maxRangeProofSize :=
  .signed (U8Array.ofNat 32 2) (.depositCoin coinOfTen 10 proof)

theorem depositOfTen_ok : ∃ proof s, apply scalarConfig (genesis tenFunds) (depositOfTen proof) =
    .ok s ∧ s.ledger = moveBalance tenFunds (U8Array.ofNat 32 2) (U8Array.ofNat 32 1) 10 := by
  obtain ⟨proof, -, hproof⟩ := proveDepositOpen_accepted scalar_decompress_compress
    (U8Array.ofNat 32 4) 10 (U8Array.ofNat 32 8) (U8Array.ofNat 32 2).toList (U8Array.zero 32)
  have hfunds : (10 : UInt64).toNat ≤ tenFunds (U8Array.ofNat 32 2) := le_rfl
  obtain ⟨s, hreg, hledger⟩ : ∃ s, registerCoin { genesis tenFunds with
      ledger := moveBalance tenFunds (U8Array.ofNat 32 2) (U8Array.ofNat 32 1) 10 } coinOfTen =
        .ok s ∧ s.ledger = moveBalance tenFunds (U8Array.ofNat 32 2) (U8Array.ofNat 32 1) 10 :=
    ⟨_, registerCoin_eq_ok.2 ⟨_, BoundedVec.tryPush_of_lt (by decide) _, rfl⟩, rfl⟩
  exact ⟨proof, s, apply_eq_ok.2 ⟨nofun, depositCoin_eq_ok.2 ⟨_, rfl, rfl, hproof, _,
    balances_transfer_of_le hfunds _ _, hreg⟩⟩, hledger⟩

/-- The coin is withdrawn to the account two. -/
theorem coinOfTen_withdrawn : ∃ xs s g proof s',
    run (apply scalarConfig) (genesis tenFunds) xs = s ∧
      apply scalarConfig s (.unsigned (.withdrawCoin (wholeCoin g (U8Array.ofNat 32 4) 10
        (U8Array.ofNat 32 2) (U8Array.zero 16)).encode proof)) = .ok s' ∧
      s'.ledger (U8Array.ofNat 32 2) = 10 := by
  obtain ⟨p, s, hs, hledger⟩ := depositOfTen_ok
  have hrun : run (apply scalarConfig) (genesis tenFunds) [depositOfTen p] = s := by
    rw [run_cons, next_ok hs, run_nil]
  have hcoin : coinCommit scalarPrimitives (U8Array.ofNat 32 4) 10 (U8Array.ofNat 32 8) ∈
      registeredCoins (history (apply scalarConfig) (genesis tenFunds) [depositOfTen p]) := by
    rw [history_cons_ok hs]
    exact List.mem_singleton_self _
  obtain ⟨g, i, proof, -, -, -, hpaid⟩ := coin_withdrawable scalar_decompress_compress
    scalar_decompress_zero scalarConfig rfl tenFunds [depositOfTen p] [] hrun rfl
    hcoin (U8Array.ofNat 32 2) (U8Array.zero 16) (U8Array.zero 32)
  have hunused : s.serialUsed (U8Array.ofNat 32 4) = false := by
    rw [(apply_marks hs).serialUsed]
    rfl
  have hpool : (10 : UInt64).toNat ≤ s.ledger (U8Array.ofNat 32 1) := by
    rw [hledger, moveBalance_dest (by decide)]
    exact Nat.le_add_left 10 10
  obtain ⟨s', hs', hledger'⟩ := hpaid (U8Array.ofNat 32 2) _ rfl hunused rfl
    (balances_transfer_of_le hpool _ _)
  refine ⟨_, s, g, proof, s', hrun, hs', ?_⟩
  rw [hledger', moveBalance_dest (by decide), hledger, moveBalance_source (by decide)]
  rfl

end Example

/-- The public inputs of a purchase that leaves the rest of a coin's value in a new one. -/
def restCoin (P : Primitives V) (g : UInt32) (serial id : U8Array 32) (txId : U8Array 16)
    (ownershipCommitment : U8Array 32) (rest : UInt64) (newSerial changeBlinding : U8Array 32) :
    CoinSpendPublic where
  groupId := g
  serial
  rwaId := id
  txId
  ownershipCommitment
  change := pedersenCommit P rest changeBlinding
  changeCoin := coinCommit P newSerial rest changeBlinding

section Purchase

variable (hT : T.proofVerifier = runtimeProofVerifier P) {g : UInt32}
  {coin serial id ownershipCommitment newSerial changeBlinding : U8Array 32} {txId : U8Array 16}
  {rest price : UInt64} {proof g1Pok : List UInt8} (hcoin : coin ∈ (s.coinGroup g).val)
  (hproof : verify P proof (padGroup P (s.coinGroup g).val g) serial price
    (pedersenCommit P rest changeBlinding) (T.blake2_256 (restCoin P g serial id txId
      ownershipCommitment rest newSerial changeBlinding).encode).toList = true)
  (hpok : verifyG1Pok P (coinCommit P newSerial rest changeBlinding)
    (pedersenCommit P rest changeBlinding) g1Pok (T.blake2_256 (restCoin P g serial id txId
      ownershipCommitment rest newSerial changeBlinding).encode).toList = true)
  (hchange : pedersenCommit P rest changeBlinding ≠ U8Array.zero 32)
  (hchangeCoin : coinCommit P newSerial rest changeBlinding ≠ U8Array.zero 32)
  (hnew : s.coinLocation (coinCommit P newSerial rest changeBlinding) = none)
  (hroom : (s.coinGroup (openGroup s)).val.length < 1024)

omit [DecidableEq V] in
include hchange in
/-- The new coin is the one of the rest. -/
theorem newCoin_restCoin : (restCoin P g serial id txId ownershipCommitment rest newSerial
    changeBlinding).newCoin = some (coinCommit P newSerial rest changeBlinding) := if_neg hchange

include hT hproof hpok hchange hchangeCoin hnew hroom

/-- The coin is spent and the change coin joins the open group. -/
theorem spendCoin_succeeds : ∃ t, spendCoin T s
    (restCoin P g serial id txId ownershipCommitment rest newSerial changeBlinding).encode
    (restCoin P g serial id txId ownershipCommitment rest newSerial changeBlinding) price proof
      g1Pok = .ok t ∧ t.ledger = s.ledger := by
  have hconverted : ChangeConverted T s
      (restCoin P g serial id txId ownershipCommitment rest newSerial changeBlinding).encode
      (restCoin P g serial id txId ownershipCommitment rest newSerial changeBlinding) g1Pok := by
    intro c hc
    rw [newCoin_restCoin hchange] at hc
    obtain rfl := Option.mem_some.1 hc
    rw [hT]
    exact ⟨hnew, hpok⟩
  obtain ⟨t, hreg, hledger⟩ : ∃ t, registerNew s (restCoin P g serial id txId ownershipCommitment
      rest newSerial changeBlinding).newCoin = .ok t ∧ t.ledger = s.ledger := by
    rw [newCoin_restCoin hchange]
    exact ⟨_, registerCoin_eq_ok.2 ⟨_, BoundedVec.tryPush_of_lt hroom _, rfl⟩, rfl⟩
  refine ⟨_, spendCoin_eq_ok.2 ⟨?_, ?_, hconverted, t, hreg, rfl⟩, hledger⟩
  · exact (decide_eq_true hchange).trans (decide_eq_true hchangeCoin).symm
  · rw [CoinOpensAt, hT]
    exact hproof

variable (hunused : s.serialUsed serial = false) (hprice : 0 < price)

include hcoin hunused hprice

theorem purchaseCoin_succeeds (hoffer : s.rwaPrices id = price) : ∃ s', apply T s (.unsigned
    (.purchaseCoin (restCoin P g serial id txId ownershipCommitment rest newSerial
      changeBlinding).encode proof g1Pok)) = .ok s' := by
  have hgroup := coinGroups_isSome hcoin
  subst hoffer
  obtain ⟨t, hspend, -⟩ := spendCoin_succeeds hT hproof hpok hchange hchangeCoin hnew hroom
  have hvalid : ∃ v, validateUnsigned T s (.purchaseCoin (restCoin P g serial id txId
      ownershipCommitment rest newSerial changeBlinding).encode proof g1Pok) = .ok v := by
    simp [validateUnsigned, validateCoinSpend, validateCoin, restCoin, hunused, hgroup]
  refine ⟨_, apply_eq_ok.2 ⟨?_, purchaseCoin_eq_ok.2 ⟨rfl, _, CoinSpendPublic.decode_encode _,
    hunused, hgroup, hprice, t, hspend, rfl⟩⟩⟩
  rintro c ⟨⟩
  exact hvalid

theorem purchaseAccessCoin_succeeds {cfg : AppConfig} {dest : A} {ledger : L}
    (happ : s.accessKeyConfigs id = some cfg) (hoffer : cfg.price = price)
    (hdest : T.decodeAccount cfg.paymentAccount.toList = some dest)
    (hpay : T.currency.transfer s.ledger T.poolAccount dest price.toNat .allowDeath =
      some ledger) :
    ∃ s', apply T s (.unsigned (.purchaseAccessCoin (restCoin P g serial id txId
        ownershipCommitment rest newSerial changeBlinding).encode proof g1Pok)) = .ok s' ∧
      s'.ledger = ledger := by
  have hgroup := coinGroups_isSome hcoin
  subst hoffer
  obtain ⟨t, hspend, hledger⟩ := spendCoin_succeeds hT hproof hpok hchange hchangeCoin hnew hroom
  have hvalid : ∃ v, validateUnsigned T s (.purchaseAccessCoin (restCoin P g serial id txId
      ownershipCommitment rest newSerial changeBlinding).encode proof g1Pok) = .ok v := by
    simp [validateUnsigned, validateCoinSpend, validateCoin, restCoin, hunused, hgroup]
  rw [← hledger] at hpay
  refine ⟨_, apply_eq_ok.2 ⟨?_, purchaseAccessCoin_eq_ok.2 ⟨rfl, _, CoinSpendPublic.decode_encode _,
    hunused, hgroup, cfg, happ, hprice, t, hspend, _,
    payApp_eq_ok.2 ⟨dest, hdest, ledger, hpay, rfl⟩, rfl⟩⟩, rfl⟩
  rintro c ⟨⟩
  exact hvalid

end Purchase

/-- A successful extrinsic at the end of a run registers its coin. -/
theorem registeredCoins_snoc {R : ℕ} {step : State L → Extrinsic A R → Except Rejection (State L)}
    {s₀ : State L} {xs : List (Extrinsic A R)} {x : Extrinsic A R}
    (h : step (run step s₀ xs) x = .ok s') :
    registeredCoins (history step s₀ (xs ++ [x])) =
      registeredCoins (history step s₀ xs) ++ x.call.newCoin.toList := by
  rw [history_append, history_cons_ok h, history_nil, registeredCoins_append_singleton]

/-- The owner of a registered coin of an unused serial can buy what it covers, an asset
or access to an app that the pool can pay, and is left with a registered coin of the
rest of the value under a new serial. -/
theorem coin_buys (hpoint : ∀ p, P.decompress (P.compress p) = some p) (T : Config A L)
    (hT : T.proofVerifier = runtimeProofVerifier P) (ledger : L)
    (xs : List (Extrinsic A T.maxRangeProofSize))
    (hs : run (apply T) (genesis ledger) xs = s)
    (hcoins : registeredCoins (history (apply T) (genesis ledger) xs) = coins)
    (hroom : coins.length < 1024 * 2 ^ 32) {serial blinding : U8Array 32} {value price : UInt64}
    (hcoin : coinCommit P serial value blinding ∈ coins) (hunused : s.serialUsed serial = false)
    (hprice : 0 < price) (hle : price ≤ value) {newSerial changeBlinding : U8Array 32}
    (hnew : coinCommit P newSerial (value - price) changeBlinding ∉ coins)
    (hchange : pedersenCommit P (value - price) changeBlinding ≠ U8Array.zero 32)
    (hchangeCoin : coinCommit P newSerial (value - price) changeBlinding ≠ U8Array.zero 32)
    (id : U8Array 32) (txId : U8Array 16) (ownershipCommitment seed seed' : U8Array 32) :
    ∃ g i inputs proof g1Pok, s.coinLocation (coinCommit P serial value blinding) = some (g, i) ∧
      inputs = restCoin P g serial id txId ownershipCommitment (value - price) newSerial
        changeBlinding ∧
      prove P (padGroup P (s.coinGroup g).val g) i.toNat serial price inputs.change
          (Scalar.fromBytesModOrder blinding - Scalar.fromBytesModOrder changeBlinding).toBytes
          (T.blake2_256 inputs.encode).toList seed = some proof ∧
      proveG1Pok P inputs.changeCoin inputs.change newSerial (T.blake2_256 inputs.encode).toList
          seed' = some g1Pok ∧
      (s.rwaPrices id = price → ∃ s',
        apply T s (.unsigned (.purchaseCoin inputs.encode proof g1Pok)) = .ok s' ∧
          registeredCoins (history (apply T) (genesis ledger)
            (xs ++ [.unsigned (.purchaseCoin inputs.encode proof g1Pok)])) =
              coins ++ [coinCommit P newSerial (value - price) changeBlinding]) ∧
      ∀ cfg dest ledger', s.accessKeyConfigs id = some cfg → cfg.price = price →
        T.decodeAccount cfg.paymentAccount.toList = some dest →
        T.currency.transfer s.ledger T.poolAccount dest price.toNat .allowDeath = some ledger' →
        ∃ s', apply T s (.unsigned (.purchaseAccessCoin inputs.encode proof g1Pok)) = .ok s' ∧
          s'.ledger = ledger' ∧ registeredCoins (history (apply T) (genesis ledger)
            (xs ++ [.unsigned (.purchaseAccessCoin inputs.encode proof g1Pok)])) =
              coins ++ [coinCommit P newSerial (value - price) changeBlinding] := by
  have hgrouped := @grouped_run A L T _ [] (grouped_genesis ledger) xs
  rw [List.nil_append, hs, hcoins] at hgrouped
  obtain ⟨g, i, hlocation, hget⟩ := hgrouped.exists_location hcoin
  have hdecode (c : U8Array 32) (hc : c ∈ (s.coinGroup g).val) : (P.decompress c).isSome := by
    refine registeredCoins_decode hT (genesis ledger) xs ?_
    rw [hcoins]
    exact hgrouped.mem_of_mem_group hc
  have hfresh : s.coinLocation (coinCommit P newSerial (value - price) changeBlinding) = none := by
    rw [Option.eq_none_iff_forall_ne_some]
    rintro ⟨g', i'⟩ hloc
    exact hnew (hgrouped.mem_of_mem_group
      (List.mem_of_getElem? (((hgrouped.exact P).located _ g' i').1 hloc)))
  obtain ⟨proof, hproof, hverify⟩ := exists_purchase_proof hpoint (s.coinGroup g).property hdecode
    hget hle changeBlinding g (T.blake2_256 (restCoin P g serial id txId ownershipCommitment
      (value - price) newSerial changeBlinding).encode).toList seed
  obtain ⟨g1Pok, hg1, hpok⟩ := changeFlow_accepted hpoint newSerial (value - price) changeBlinding
    (T.blake2_256 (restCoin P g serial id txId ownershipCommitment (value - price) newSerial
      changeBlinding).encode).toList seed'
  have hmem := List.mem_of_getElem? hget
  have hregistered {x : Extrinsic A T.maxRangeProofSize} {s' : State L} (hok : apply T s x = .ok s')
      (hx : x.call.newCoin = (restCoin P g serial id txId ownershipCommitment (value - price)
        newSerial changeBlinding).newCoin) :
      registeredCoins (history (apply T) (genesis ledger) (xs ++ [x])) =
        coins ++ [coinCommit P newSerial (value - price) changeBlinding] := by
    rw [← hs] at hok
    rw [registeredCoins_snoc hok, hcoins, hx, newCoin_restCoin hchange]
    rfl
  refine ⟨g, i, _, proof, g1Pok, hlocation, rfl, hproof, hg1, fun hoffer => ?_,
    fun cfg dest ledger' happ hoffer hdest hpay => ?_⟩
  · obtain ⟨s', hok⟩ := purchaseCoin_succeeds hT hmem hverify hpok hchange hchangeCoin hfresh
      (hgrouped.room hroom) hunused hprice hoffer
    refine ⟨s', hok, hregistered hok ?_⟩
    rw [Extrinsic.call, Call.newCoin, CoinSpendPublic.decode_encode, Option.bind_some]
  · obtain ⟨s', hok, hledger⟩ := purchaseAccessCoin_succeeds hT hmem hverify hpok hchange
      hchangeCoin hfresh (hgrouped.room hroom) hunused hprice happ hoffer hdest hpay
    refine ⟨s', hok, hledger, hregistered hok ?_⟩
    rw [Extrinsic.call, Call.newCoin, CoinSpendPublic.decode_encode, Option.bind_some]

section Example

/-- Three of the ten buy the asset zero, and seven are left in a new coin. -/
theorem coinOfTen_buys : ∃ xs s g i inputs proof g1Pok s',
    run (apply scalarConfig) (genesis tenFunds) xs = s ∧
      s.coinLocation coinOfTen = some (g, i) ∧
      inputs = restCoin scalarPrimitives g (U8Array.ofNat 32 4) (U8Array.zero 32)
        (U8Array.zero 16) (U8Array.zero 32) 7 (U8Array.ofNat 32 5) (U8Array.ofNat 32 9) ∧
      apply scalarConfig s (.unsigned (.purchaseCoin inputs.encode proof g1Pok)) = .ok s' ∧
      registeredCoins (history (apply scalarConfig) (genesis tenFunds)
        (xs ++ [.unsigned (.purchaseCoin inputs.encode proof g1Pok)])) = [coinOfTen,
          coinCommit scalarPrimitives (U8Array.ofNat 32 5) 7 (U8Array.ofNat 32 9)] := by
  obtain ⟨p, s₁, h₁, -⟩ := depositOfTen_ok
  obtain ⟨s, h₂, hprices, hserials⟩ : ∃ s,
      apply scalarConfig s₁ (.root (.setRwaPrice (U8Array.zero 32) 3)) = .ok s ∧
        s.rwaPrices = insertAt s₁.rwaPrices (U8Array.zero 32) 3 ∧ s.serialUsed = s₁.serialUsed :=
    ⟨_, rfl, rfl, rfl⟩
  have hrun : run (apply scalarConfig) (genesis tenFunds)
      [depositOfTen p, .root (.setRwaPrice (U8Array.zero 32) 3)] = s := by
    rw [run_cons, next_ok h₁, run_cons, next_ok h₂, run_nil]
  have hcoins : registeredCoins (history (apply scalarConfig) (genesis tenFunds)
      [depositOfTen p, .root (.setRwaPrice (U8Array.zero 32) 3)]) = [coinOfTen] := by
    rw [history_cons_ok h₁, history_cons_ok h₂]
    rfl
  have hunused : s.serialUsed (U8Array.ofNat 32 4) = false := by
    rw [hserials, (apply_marks h₁).serialUsed]
    rfl
  have hnew : coinCommit scalarPrimitives (U8Array.ofNat 32 5) (10 - 3) (U8Array.ofNat 32 9) ∉
      [coinOfTen] := by decide +kernel
  have hchange : pedersenCommit scalarPrimitives (10 - 3) (U8Array.ofNat 32 9) ≠
      U8Array.zero 32 := by decide +kernel
  have hcoin : coinCommit scalarPrimitives (U8Array.ofNat 32 5) (10 - 3) (U8Array.ofNat 32 9) ≠
      U8Array.zero 32 := by decide +kernel
  obtain ⟨g, i, inputs, proof, g1Pok, hlocation, hinputs, -, -, hbuys, -⟩ :=
    coin_buys scalar_decompress_compress scalarConfig rfl tenFunds _ hrun hcoins (by decide)
      (List.mem_singleton_self _) hunused (by decide) (by decide) hnew hchange hcoin
      (U8Array.zero 32) (U8Array.zero 16) (U8Array.zero 32) (U8Array.zero 32) (U8Array.zero 32)
  obtain ⟨s', hs', hcoins'⟩ := hbuys (by rw [hprices, insertAt, Function.update_self])
  exact ⟨_, s, g, i, inputs, proof, g1Pok, s', hrun, hlocation, hinputs, hs', hcoins'⟩

end Example

end NullaRelay.ScanProof
