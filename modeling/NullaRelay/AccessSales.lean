import NullaRelay.Lanes
import NullaRelay.ScanProof.Marks

/-!
# Sales of access

A purchase of access marks a key that was unmarked, and the pool pays the price of the
app to its account. This is all that a sale does to the balances.
-/

namespace NullaRelay

open NullaRelay.Frame

namespace ProofHub

variable {A L : Type} {T : Config A L} {s s' : State L}

/-- An app is sold for a nullifier. -/
structure AccessSale (T : Config A L) (s s' : State L) (appId nullifier : U8Array 32) : Prop where
  fresh : s.nullifierUsed nullifier = false
  marked : s'.nullifierUsed nullifier = true
  paid : ∃ cfg dest, s.accessKeyConfigs appId = some cfg ∧ 0 < cfg.price ∧
    T.decodeAccount cfg.paymentAccount.toList = some dest ∧
    T.currency.transfer s.ledger T.poolAccount dest cfg.price.toNat .allowDeath = some s'.ledger

theorem accessSale_of_purchaseAccess {o : Origin A} {p pi : List UInt8} {i : RwaPurchaseInputs}
    (hdec : RwaPurchaseInputs.decode pi = some i) (h : purchaseAccess T s o p pi = .ok s') :
    AccessSale T s s' i.rwaId i.nullifier := by
  obtain ⟨-, i', cfg, changeRp, hcfg, hspend, s₁, hpool, rfl⟩ := purchaseAccess_eq_ok.1 h
  obtain rfl : i' = i := Option.some.inj (hspend.decoded.symm.trans hdec)
  obtain ⟨dest, hdest, ledger, hpay, rfl⟩ := payFromPool_eq_ok.1 hpool
  have hmarks : (accessPurchased T s i' changeRp).nullifierUsed =
      insertAt s.nullifierUsed i'.nullifier true := by
    change (accessPurchased T s i' changeRp).withoutNotes.nullifierUsed = _
    rw [withoutNotes_accessPurchased]
    rfl
  rw [accessPurchased_ledger] at hpay
  refine ⟨hspend.fresh, ?_, cfg, dest, hcfg, hspend.priced, hdest, hpay⟩
  change (accessPurchased T s i' changeRp).nullifierUsed i'.nullifier = true
  rw [hmarks, insertAt, Function.update_self]

theorem accessSale_of_purchaseAccessV2 {o : Origin A} {auth pi p : List UInt8} {i : SpendPublicV2}
    (hdec : SpendPublicV2.decode pi = some i) (h : purchaseAccessV2 T s o auth pi p = .ok s') :
    AccessSale T s s' i.rwaId i.nullifier := by
  obtain ⟨-, i', cfg, hi', hcfg, hprice, hspend, s₁, hins, s₂, hpool, rfl⟩ :=
    purchaseAccessV2_eq_ok.1 h
  obtain rfl : i' = i := Option.some.inj (hi'.symm.trans hdec)
  obtain ⟨-, frontier, newRoot, -, rfl⟩ := v2Insert_eq_ok.1 hins
  obtain ⟨dest, hdest, ledger, hpay, rfl⟩ := payFromPool_eq_ok.1 hpool
  exact ⟨hspend.fresh, Function.update_self _ _ _, cfg, dest, hcfg, hprice, hdest, hpay⟩

end ProofHub

namespace ScanProof

variable {A L : Type} {T : Config A L} {s s' : State L}

theorem insertNote_ledger {c : U8Array 32} (h : insertNote T s c = .ok s') :
    s'.ledger = s.ledger := by
  obtain ⟨leaves, -, rfl⟩ := insertNote_eq_ok.1 h
  rfl

theorem insertChange_ledger {change : Option (U8Array 32)} (h : insertChange T s change = .ok s') :
    s'.ledger = s.ledger := by
  cases change with
  | none =>
      obtain rfl : s = s' := by simpa [insertChange] using h
      rfl
  | some cc => exact insertNote_ledger h

/-- An app is sold for a nullifier or a serial. -/
structure AccessSale (T : Config A L) (s s' : State L) (appId key : U8Array 32) : Prop where
  marked : (s.nullifierUsed key = false ∧ s'.nullifierUsed key = true) ∨
    s.serialUsed key = false ∧ s'.serialUsed key = true
  paid : ∃ cfg dest, s.accessKeyConfigs appId = some cfg ∧ 0 < cfg.price ∧
    T.decodeAccount cfg.paymentAccount.toList = some dest ∧
    T.currency.transfer s.ledger T.poolAccount dest cfg.price.toNat .allowDeath = some s'.ledger

theorem Marks.nullifier {n : U8Array 32} (h : Marks s s' [n] []) :
    s.nullifierUsed n = false ∧ s'.nullifierUsed n = true := by
  refine ⟨by simpa using h.nullifier_fresh, ?_⟩
  rw [h.nullifierUsed]
  exact markAll_eq_true.2 (.inr (List.mem_singleton_self n))

theorem Marks.serial {n : U8Array 32} (h : Marks s s' [] [n]) :
    s.serialUsed n = false ∧ s'.serialUsed n = true := by
  refine ⟨by simpa using h.serial_fresh, ?_⟩
  rw [h.serialUsed]
  exact markAll_eq_true.2 (.inr (List.mem_singleton_self n))

theorem accessSale_of_purchaseAccess {o : Origin A} {c n id ac : U8Array 32} {p : List UInt8}
    {tx : U8Array 16} {change : Option (U8Array 32)}
    (h : purchaseAccess T s o c p n id tx ac change = .ok s') : AccessSale T s s' id n := by
  refine ⟨.inl (purchaseAccess_marks h).nullifier, ?_⟩
  obtain ⟨-, -, -, cfg, hcfg, hprice, -, -, t, ht, u, hu, rfl⟩ := purchaseAccess_eq_ok.1 h
  obtain ⟨dest, hdest, ledger, hpay, rfl⟩ := payApp_eq_ok.1 ht
  exact ⟨cfg, dest, hcfg, hprice, hdest, hpay.trans (congrArg some (insertChange_ledger hu).symm)⟩

theorem accessSale_of_purchaseAccessCoin {o : Origin A} {pi p g : List UInt8}
    {inputs : CoinSpendPublic} (hdec : CoinSpendPublic.decode pi = some inputs)
    (h : purchaseAccessCoin T s o pi p g = .ok s') :
    AccessSale T s s' inputs.rwaId inputs.serial := by
  obtain ⟨i, hi, hmarks⟩ := purchaseAccessCoin_marks h
  obtain rfl : i = inputs := Option.some.inj (hi.symm.trans hdec)
  refine ⟨.inr hmarks.serial, ?_⟩
  obtain ⟨-, i', hi', -, -, cfg, hcfg, hprice, t, ht, u, hu, rfl⟩ := purchaseAccessCoin_eq_ok.1 h
  obtain rfl : i' = i := Option.some.inj (hi'.symm.trans hdec)
  obtain ⟨dest, hdest, ledger, hpay, rfl⟩ := payApp_eq_ok.1 hu
  rw [spendCoin_ledger ht] at hpay
  exact ⟨cfg, dest, hcfg, hprice, hdest, hpay⟩

end ScanProof

end NullaRelay
