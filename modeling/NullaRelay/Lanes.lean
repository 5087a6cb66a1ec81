import NullaRelay.ProofHub.Accepting
import NullaRelay.ScanProof.CoinPurchases

/-!
# Purchases of assets and of access

The purchase of an asset and the purchase of access read the same bytes. What
differs is where they look the identifier up, in the prices of the assets or
among the apps, and with it the price that the proof is checked against. An
identifier may be on offer in both places, and then the bytes of one purchase
are as good for the other.
-/

namespace NullaRelay

open NullaRelay.Frame

/-- Bytes that one of two purchases accepts are rejected by the other exactly when
the other has no offer for them. -/
structure Separated (rwa access rwaOffer accessOffer : Prop) : Prop where
  access_rejected : rwa → (¬ access ↔ ¬ accessOffer)
  rwa_rejected : access → (¬ rwa ↔ ¬ rwaOffer)

/-- Two purchases that share all their checks but the offer. -/
theorem Separated.of_common {common rwa access rwaOffer accessOffer : Prop}
    (hrwa : rwa ↔ common ∧ rwaOffer) (haccess : access ↔ common ∧ accessOffer) :
    Separated rwa access rwaOffer accessOffer where
  access_rejected h := by
    have hcommon := (hrwa.1 h).1
    rw [haccess, and_iff_right hcommon]
  rwa_rejected h := by
    have hcommon := (haccess.1 h).1
    rw [hrwa, and_iff_right hcommon]

/-- The identifier has a price as an asset, and the proof holds for it. -/
def RwaOffer (prices : U8Array 32 → UInt64) (id : U8Array 32) (provedAt : UInt64 → Prop) : Prop :=
  0 < prices id ∧ provedAt (prices id)

/-- The identifier is an app with a price that the pool can pay, and the proof
holds for it. -/
def AccessOffer {C : Type} (configs : U8Array 32 → Option C) (price : C → UInt64)
    (payable : C → Prop) (id : U8Array 32) (provedAt : UInt64 → Prop) : Prop :=
  ∃ cfg, configs id = some cfg ∧ 0 < price cfg ∧ provedAt (price cfg) ∧ payable cfg

namespace ProofHub

variable {A L : Type} {T : Config A L} {s : State L} {o : Origin A}

/-- The pool can pay the app. -/
def Payable (T : Config A L) (s : State L) (cfg : AppConfig) : Prop :=
  ∃ dest, T.decodeAccount cfg.paymentAccount.toList = some dest ∧
    (T.currency.transfer s.ledger T.poolAccount dest cfg.price.toNat .allowDeath).isSome

theorem payFromPool_ok_iff {cfg : AppConfig} :
    (∃ t, payFromPool T s cfg.paymentAccount.toList cfg.price = .ok t) ↔ Payable T s cfg := by
  simp only [payFromPool_eq_ok, Payable, Option.isSome_iff_exists]
  constructor
  · rintro ⟨_, dest, hdest, ledger, hpay, -⟩
    exact ⟨dest, hdest, ledger, hpay⟩
  · rintro ⟨dest, hdest, ledger, hpay⟩
    exact ⟨_, dest, hdest, ledger, hpay, rfl⟩

/-- The spend proof of a v2 purchase holds for a price. -/
def ProvedV2 (T : Config A L) (auth p : List UInt8) (i : SpendPublicV2) (price : UInt64) : Prop :=
  T.proofVerifier.verifySpendV2 p i.merkleRoot i.nullifier (V2.pkDigest T.blake3 (auth.take 1312))
    price i.changeLeaf i.changePkd true = true

/-- What the two v2 purchases check alike. -/
structure SpendableV2 (T : Config A L) (s : State L) (auth pi : List UInt8) (i : SpendPublicV2) :
    Prop where
  decoded : SpendPublicV2.decode pi = some i
  fresh : s.nullifierUsed i.nullifier = false
  anchored : s.V2RootAnchored i.merkleRoot
  signed : T.proofVerifier.verifySpendAuthV2 auth pi false = true
  length : 1312 ≤ auth.length
  inserted : ∃ t, v2Insert T (markNullifier s i.nullifier) i.changeLeaf = .ok t

theorem SpendableV2.spendable {auth pi p : List UInt8} {i : SpendPublicV2} {price : UInt64}
    (h : SpendableV2 T s auth pi i) (hproof : ProvedV2 T auth p i price) :
    Spendable T s auth pi p i.merkleRoot i.nullifier price i.changeLeaf i.changePkd false :=
  ⟨h.fresh, h.anchored, h.signed, h.length, hproof⟩

theorem v2Insert_ledger {t : State L} {nf leaf : U8Array 32}
    (h : v2Insert T (markNullifier s nf) leaf = .ok t) : t.ledger = s.ledger := by
  obtain ⟨-, _, _, -, rfl⟩ := v2Insert_eq_ok.1 h
  rfl

theorem purchaseRwaV2_ok_iff {auth pi p : List UInt8} :
    (∃ t, purchaseRwaV2 T s o auth pi p = .ok t) ↔
      (o = .none ∧ ∃ i, SpendableV2 T s auth pi i) ∧
      ∃ i, SpendPublicV2.decode pi = some i ∧
        RwaOffer s.rwaPrices i.rwaId (ProvedV2 T auth p i) := by
  simp only [purchaseRwaV2_eq_ok]
  constructor
  · rintro ⟨_, ho, i, hdec, hprice, h, t, ht, -⟩
    exact ⟨⟨ho, i, hdec, h.fresh, h.anchored, h.signed, h.length, t, ht⟩, i, hdec, hprice,
      h.proved⟩
  · rintro ⟨⟨ho, i, h⟩, j, hdec, hprice, hproof⟩
    obtain rfl : i = j := Option.some.inj (h.decoded.symm.trans hdec)
    obtain ⟨t, ht⟩ := h.inserted
    exact ⟨_, ho, i, hdec, hprice, h.spendable hproof, t, ht, rfl⟩

theorem purchaseAccessV2_ok_iff {auth pi p : List UInt8} :
    (∃ t, purchaseAccessV2 T s o auth pi p = .ok t) ↔
      (o = .none ∧ ∃ i, SpendableV2 T s auth pi i) ∧
      ∃ i, SpendPublicV2.decode pi = some i ∧
        AccessOffer s.accessKeyConfigs AppConfig.price (Payable T s) i.rwaId
          (ProvedV2 T auth p i) := by
  simp only [purchaseAccessV2_eq_ok]
  constructor
  · rintro ⟨_, ho, i, cfg, hdec, hcfg, hprice, h, t, ht, u, hu, -⟩
    have hpay := payFromPool_ok_iff.1 ⟨u, hu⟩
    rw [Payable, v2Insert_ledger ht] at hpay
    exact ⟨⟨ho, i, hdec, h.fresh, h.anchored, h.signed, h.length, t, ht⟩, i, hdec, cfg, hcfg,
      hprice, h.proved, hpay⟩
  · rintro ⟨⟨ho, i, h⟩, j, hdec, cfg, hcfg, hprice, hproof, hpay⟩
    obtain rfl : i = j := Option.some.inj (h.decoded.symm.trans hdec)
    obtain ⟨t, ht⟩ := h.inserted
    rw [Payable, ← v2Insert_ledger ht] at hpay
    obtain ⟨u, hu⟩ := payFromPool_ok_iff.2 hpay
    exact ⟨_, ho, i, cfg, hdec, hcfg, hprice, h.spendable hproof, t, ht, u, hu, rfl⟩

/-- The purchase proof of a v1 purchase holds for a price. -/
def ProvedTagged (T : Config A L) (s : State L) (i : RwaPurchaseInputs) (price : UInt64) : Prop :=
  ∃ changeRp, changeRpCommitment s i = .ok changeRp ∧
    ∃ storedRp, s.spendTagRpCommitments i.spendTag = some storedRp ∧
      T.proofVerifier.verifyPurchaseProof i.purchaseProof storedRp changeRp price = true

/-- What the two v1 purchases check alike. -/
structure SpendableTagged (T : Config A L) (s : State L) (proof pi : List UInt8)
    (i : RwaPurchaseInputs) : Prop where
  decoded : RwaPurchaseInputs.decode pi = some i
  fresh : s.nullifierUsed i.nullifier = false
  registered : (s.spendTagCommitments i.spendTag).isSome
  unused : s.spendTagUsed i.spendTag = false
  signed : T.proofVerifier.verifyPurchase proof pi = true

theorem tagSpendable_iff {proof pi : List UInt8} {i : RwaPurchaseInputs} {price : UInt64} :
    (∃ changeRp, TagSpendable T s proof pi i price changeRp) ↔
      SpendableTagged T s proof pi i ∧ 0 < price ∧ ProvedTagged T s i price := by
  constructor
  · rintro ⟨rp, h⟩
    exact ⟨⟨h.decoded, h.fresh, h.registered, h.unused, h.signed⟩, h.priced, rp, h.resolved,
      h.proved⟩
  · rintro ⟨h, hprice, rp, hrp, hproof⟩
    exact ⟨rp, h.decoded, h.fresh, h.registered, h.unused, hprice, hrp, hproof, h.signed⟩

theorem purchaseRwa_ok_iff {proof pi : List UInt8} :
    (∃ t, purchaseRwa T s o proof pi = .ok t) ↔
      (o = .none ∧ ∃ i, SpendableTagged T s proof pi i) ∧
      ∃ i, RwaPurchaseInputs.decode pi = some i ∧
        RwaOffer s.rwaPrices i.rwaId (ProvedTagged T s i) := by
  simp only [purchaseRwa_eq_ok]
  constructor
  · rintro ⟨_, ho, i, rp, h, -⟩
    obtain ⟨hcommon, hoffer⟩ := tagSpendable_iff.1 ⟨rp, h⟩
    exact ⟨⟨ho, i, hcommon⟩, i, h.decoded, hoffer⟩
  · rintro ⟨⟨ho, i, h⟩, j, hdec, hoffer⟩
    obtain rfl : i = j := Option.some.inj (h.decoded.symm.trans hdec)
    obtain ⟨rp, hspend⟩ := tagSpendable_iff.2 ⟨h, hoffer⟩
    exact ⟨_, ho, i, rp, hspend, rfl⟩

theorem accessPurchased_ledger (i : RwaPurchaseInputs) (changeRp : U8Array 32) :
    (accessPurchased T s i changeRp).ledger = s.ledger := by
  have hledger : (accessPurchased T s i changeRp).withoutNotes.ledger = s.ledger := by
    rw [withoutNotes_accessPurchased]
    rfl
  exact hledger

theorem purchaseAccess_ok_iff {proof pi : List UInt8} :
    (∃ t, purchaseAccess T s o proof pi = .ok t) ↔
      (o = .none ∧ ∃ i, SpendableTagged T s proof pi i) ∧
      ∃ i, RwaPurchaseInputs.decode pi = some i ∧
        AccessOffer s.accessKeyConfigs AppConfig.price (Payable T s) i.rwaId
          (ProvedTagged T s i) := by
  simp only [purchaseAccess_eq_ok]
  constructor
  · rintro ⟨_, ho, i, cfg, rp, hcfg, h, u, hu, -⟩
    obtain ⟨hcommon, hprice, hproof⟩ := tagSpendable_iff.1 ⟨rp, h⟩
    have hpay := payFromPool_ok_iff.1 ⟨u, hu⟩
    rw [Payable, accessPurchased_ledger] at hpay
    exact ⟨⟨ho, i, hcommon⟩, i, h.decoded, cfg, hcfg, hprice, hproof, hpay⟩
  · rintro ⟨⟨ho, i, h⟩, j, hdec, cfg, hcfg, hprice, hproof, hpay⟩
    obtain rfl : i = j := Option.some.inj (h.decoded.symm.trans hdec)
    obtain ⟨rp, hspend⟩ := tagSpendable_iff.2 ⟨h, hprice, hproof⟩
    rw [Payable, ← accessPurchased_ledger i rp] at hpay
    obtain ⟨u, hu⟩ := payFromPool_ok_iff.2 hpay
    exact ⟨_, ho, i, cfg, rp, hcfg, hspend, u, hu, rfl⟩

end ProofHub

namespace ScanProof

variable {A L : Type} {T : Config A L} {s : State L} {o : Origin A}

/-- What the two note purchases check alike. -/
structure SpendableNote (s : State L) (o : Origin A) (c n : U8Array 32)
    (change : Option (U8Array 32)) : Prop where
  origin : o = .none
  fresh : s.nullifierUsed n = false
  indexed : (s.commitmentIndex c).isSome
  newChange : ∀ cc ∈ change, s.commitmentIndex cc = none
  room : change.isSome → s.leaves.val.length < 1048576

theorem purchaseRwa_ok_iff {c n id oc : U8Array 32} {p : List UInt8} {tx : U8Array 16}
    {change : Option (U8Array 32)} :
    (∃ t, purchaseRwa T s o c p n id tx oc change = .ok t) ↔
      SpendableNote s o c n change ∧
      RwaOffer s.rwaPrices id fun price => OpensAt T c p n id tx price change := by
  simp only [purchaseRwa_eq_ok]
  constructor
  · rintro ⟨_, ho, hn, hc, hprice, hnew, hopen, t, ht, -⟩
    have hroom := insertChange_ok_iff.1 ⟨t, ht⟩
    exact ⟨⟨ho, hn, hc, hnew, hroom⟩, hprice, hopen⟩
  · rintro ⟨h, hprice, hopen⟩
    obtain ⟨t, ht⟩ : ∃ t, insertChange T (markNullifier s n) change = .ok t :=
      insertChange_ok_iff.2 h.room
    exact ⟨_, h.origin, h.fresh, h.indexed, hprice, h.newChange, hopen, t, ht, rfl⟩

theorem purchaseAccess_ok_iff {c n id ac : U8Array 32} {p : List UInt8} {tx : U8Array 16}
    {change : Option (U8Array 32)} :
    (∃ t, purchaseAccess T s o c p n id tx ac change = .ok t) ↔
      SpendableNote s o c n change ∧
      AccessOffer s.accessKeyConfigs AppConfig.price (AppPayable T s.ledger) id fun price =>
        OpensAt T c p n id tx price change := by
  simp only [purchaseAccess_eq_ok]
  constructor
  · rintro ⟨_, ho, hn, hc, cfg, hcfg, hprice, hnew, hopen, t, ht, u, hu, -⟩
    have hroom := insertChange_ok_iff.1 ⟨u, hu⟩
    have hpay := payApp_ok_iff.1 ⟨t, ht⟩
    obtain ⟨_, -, _, -, rfl⟩ := payApp_eq_ok.1 ht
    exact ⟨⟨ho, hn, hc, hnew, hroom⟩, cfg, hcfg, hprice, hopen, hpay⟩
  · rintro ⟨h, cfg, hcfg, hprice, hopen, dest, hdest, ledger, hpay⟩
    obtain ⟨u, hu⟩ : ∃ u, insertChange T { markNullifier s n with ledger } change = .ok u :=
      insertChange_ok_iff.2 h.room
    exact ⟨_, h.origin, h.fresh, h.indexed, cfg, hcfg, hprice, h.newChange, hopen, _,
      payApp_eq_ok.2 ⟨dest, hdest, ledger, hpay, rfl⟩, u, hu, rfl⟩

/-- What the two coin purchases check alike. -/
structure SpendableCoin (T : Config A L) (s : State L) (pi g1Pok : List UInt8)
    (i : CoinSpendPublic) : Prop where
  decoded : CoinSpendPublic.decode pi = some i
  fresh : s.serialUsed i.serial = false
  grouped : (s.coinGroups i.groupId).isSome
  change : decide (i.change ≠ U8Array.zero 32) = decide (i.changeCoin ≠ U8Array.zero 32)
  converted : ChangeConverted T s pi i g1Pok
  registered : ∃ t, registerNew s i.newCoin = .ok t

theorem spendCoin_ok_iff {pi p g : List UInt8} {i : CoinSpendPublic} {price : UInt64}
    (hdec : CoinSpendPublic.decode pi = some i) (hfresh : s.serialUsed i.serial = false)
    (hgroup : (s.coinGroups i.groupId).isSome) :
    (∃ t, spendCoin T s pi i price p g = .ok t) ↔
      SpendableCoin T s pi g i ∧ CoinOpensAt T s pi i p price := by
  simp only [spendCoin_eq_ok]
  constructor
  · rintro ⟨_, heq, hproof, hconv, t, ht, -⟩
    exact ⟨⟨hdec, hfresh, hgroup, heq, hconv, t, ht⟩, hproof⟩
  · rintro ⟨h, hproof⟩
    obtain ⟨t, ht⟩ := h.registered
    exact ⟨_, h.change, hproof, h.converted, t, ht, rfl⟩

theorem registerNew_ledger {t : State L} {coin : Option (U8Array 32)}
    (h : registerNew s coin = .ok t) : t.ledger = s.ledger := by
  cases coin with
  | none =>
      cases h
      rfl
  | some c =>
      obtain ⟨_, -, rfl⟩ := registerCoin_eq_ok.1 h
      rfl

theorem spendCoin_ledger {t : State L} {pi p g : List UInt8} {i : CoinSpendPublic}
    {price : UInt64} (h : spendCoin T s pi i price p g = .ok t) : t.ledger = s.ledger := by
  obtain ⟨-, -, -, u, hu, rfl⟩ := spendCoin_eq_ok.1 h
  have hledger : u.ledger = s.ledger := registerNew_ledger hu
  exact hledger

theorem purchaseCoin_ok_iff {pi p g : List UInt8} :
    (∃ t, purchaseCoin T s o pi p g = .ok t) ↔
      (o = .none ∧ ∃ i, SpendableCoin T s pi g i) ∧
      ∃ i, CoinSpendPublic.decode pi = some i ∧
        RwaOffer s.rwaPrices i.rwaId (CoinOpensAt T s pi i p) := by
  simp only [purchaseCoin_eq_ok]
  constructor
  · rintro ⟨_, ho, i, hdec, hfresh, hgroup, hprice, t, ht, -⟩
    obtain ⟨hcommon, hproof⟩ := (spendCoin_ok_iff hdec hfresh hgroup).1 ⟨t, ht⟩
    exact ⟨⟨ho, i, hcommon⟩, i, hdec, hprice, hproof⟩
  · rintro ⟨⟨ho, i, h⟩, j, hdec, hprice, hproof⟩
    obtain rfl : i = j := Option.some.inj (h.decoded.symm.trans hdec)
    obtain ⟨t, ht⟩ := (spendCoin_ok_iff hdec h.fresh h.grouped).2 ⟨h, hproof⟩
    exact ⟨_, ho, i, hdec, h.fresh, h.grouped, hprice, t, ht, rfl⟩

theorem purchaseAccessCoin_ok_iff {pi p g : List UInt8} :
    (∃ t, purchaseAccessCoin T s o pi p g = .ok t) ↔
      (o = .none ∧ ∃ i, SpendableCoin T s pi g i) ∧
      ∃ i, CoinSpendPublic.decode pi = some i ∧
        AccessOffer s.accessKeyConfigs AppConfig.price (AppPayable T s.ledger) i.rwaId
          (CoinOpensAt T s pi i p) := by
  simp only [purchaseAccessCoin_eq_ok]
  constructor
  · rintro ⟨_, ho, i, hdec, hfresh, hgroup, cfg, hcfg, hprice, t, ht, u, hu, -⟩
    obtain ⟨hcommon, hproof⟩ := (spendCoin_ok_iff hdec hfresh hgroup).1 ⟨t, ht⟩
    have hpay := payApp_ok_iff.1 ⟨u, hu⟩
    rw [spendCoin_ledger ht] at hpay
    exact ⟨⟨ho, i, hcommon⟩, i, hdec, cfg, hcfg, hprice, hproof, hpay⟩
  · rintro ⟨⟨ho, i, h⟩, j, hdec, cfg, hcfg, hprice, hproof, hpay⟩
    obtain rfl : i = j := Option.some.inj (h.decoded.symm.trans hdec)
    obtain ⟨t, ht⟩ := (spendCoin_ok_iff hdec h.fresh h.grouped).2 ⟨h, hproof⟩
    rw [← spendCoin_ledger ht] at hpay
    obtain ⟨u, hu⟩ := payApp_ok_iff.2 hpay
    exact ⟨_, ho, i, hdec, h.fresh, h.grouped, cfg, hcfg, hprice, t, ht, u, hu, rfl⟩

end ScanProof

/-- In each of the four lanes, in every state and for all bytes: what one purchase
accepts the other rejects exactly when it has no offer for it. -/
theorem purchases_separated_iff {A L A' L' : Type} (T : ProofHub.Config A L)
    (S : ScanProof.Config A' L') :
    (∀ s o auth pi p, Separated
      (∃ t, ProofHub.purchaseRwaV2 T s o auth pi p = .ok t)
      (∃ t, ProofHub.purchaseAccessV2 T s o auth pi p = .ok t)
      (∃ i, ProofHub.SpendPublicV2.decode pi = some i ∧
        RwaOffer s.rwaPrices i.rwaId (ProofHub.ProvedV2 T auth p i))
      (∃ i, ProofHub.SpendPublicV2.decode pi = some i ∧
        AccessOffer s.accessKeyConfigs ProofHub.AppConfig.price (ProofHub.Payable T s) i.rwaId
          (ProofHub.ProvedV2 T auth p i))) ∧
    (∀ s o proof pi, Separated
      (∃ t, ProofHub.purchaseRwa T s o proof pi = .ok t)
      (∃ t, ProofHub.purchaseAccess T s o proof pi = .ok t)
      (∃ i, ProofHub.RwaPurchaseInputs.decode pi = some i ∧
        RwaOffer s.rwaPrices i.rwaId (ProofHub.ProvedTagged T s i))
      (∃ i, ProofHub.RwaPurchaseInputs.decode pi = some i ∧
        AccessOffer s.accessKeyConfigs ProofHub.AppConfig.price (ProofHub.Payable T s) i.rwaId
          (ProofHub.ProvedTagged T s i))) ∧
    (∀ s o pi p g, Separated
      (∃ t, ScanProof.purchaseCoin S s o pi p g = .ok t)
      (∃ t, ScanProof.purchaseAccessCoin S s o pi p g = .ok t)
      (∃ i, ScanProof.CoinSpendPublic.decode pi = some i ∧
        RwaOffer s.rwaPrices i.rwaId (ScanProof.CoinOpensAt S s pi i p))
      (∃ i, ScanProof.CoinSpendPublic.decode pi = some i ∧
        AccessOffer s.accessKeyConfigs ScanProof.AppConfig.price
          (ScanProof.AppPayable S s.ledger) i.rwaId (ScanProof.CoinOpensAt S s pi i p))) ∧
    ∀ s o c p n id tx oc change, Separated
      (∃ t, ScanProof.purchaseRwa S s o c p n id tx oc change = .ok t)
      (∃ t, ScanProof.purchaseAccess S s o c p n id tx oc change = .ok t)
      (RwaOffer s.rwaPrices id fun price => ScanProof.OpensAt S c p n id tx price change)
      (AccessOffer s.accessKeyConfigs ScanProof.AppConfig.price
        (ScanProof.AppPayable S s.ledger) id fun price =>
          ScanProof.OpensAt S c p n id tx price change) := by
  refine ⟨?_, ?_, ?_, ?_⟩
  · intro s o auth pi p
    exact .of_common ProofHub.purchaseRwaV2_ok_iff ProofHub.purchaseAccessV2_ok_iff
  · intro s o proof pi
    exact .of_common ProofHub.purchaseRwa_ok_iff ProofHub.purchaseAccess_ok_iff
  · intro s o pi p g
    exact .of_common ScanProof.purchaseCoin_ok_iff ScanProof.purchaseAccessCoin_ok_iff
  · intro s o c p n id tx oc change
    exact .of_common ScanProof.purchaseRwa_ok_iff ScanProof.purchaseAccess_ok_iff

open ProofHub in
/-- In the open market the identifier zero names an asset and an app, both at the
price one, and the bytes of one purchase buy either. -/
theorem purchase_redirected :
    ¬ ∀ (s : State (U8Array 32 → ℕ)) (auth pi p : List UInt8),
      (∃ t, purchaseRwaV2 (acceptingConfig tailHash) s .none auth pi p = .ok t) →
        ¬ ∃ t, purchaseAccessV2 (acceptingConfig tailHash) s .none auth pi p = .ok t := by
  intro hclaim
  obtain ⟨s, _, _, -, hopen, hrwa, -⟩ := rebuy_succeeds tailHash
  have hprice : (1 : UInt64).toNat = 1 := rfl
  have hnew : U8Array.ofNat 32 1 ∉ [U8Array.ofNat 32 9] := by decide
  obtain ⟨t, haccess, -⟩ := accepting_purchaseAccessV2 (i := rebuy s 1) hopen.tree
    (hopen.nullifierUsed _) (.inl rfl) hopen.app (by decide)
    (le_trans (by rw [hprice]; norm_num) hopen.pool) hnew (by decide)
  exact hclaim s anyAuth (rebuy s 1).encode [] ⟨_, hrwa⟩ ⟨t, haccess⟩

end NullaRelay
