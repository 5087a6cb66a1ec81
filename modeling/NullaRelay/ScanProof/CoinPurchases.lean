import NullaRelay.ScanProof.NotePurchases

/-!
# The coin calls of ScanProof

Exactly when a deposit of a coin, a purchase or a withdrawal with a coin succeeds,
and what it leaves.
-/

namespace NullaRelay.ScanProof

open NullaRelay.Frame

variable {A L : Type} {T : Config A L} {s s' : State L} {o : Origin A}

theorem registerCoin_eq_ok {coin : U8Array 32} :
    registerCoin s coin = .ok s' ↔
      ∃ group, (s.coinGroup (openGroup s)).tryPush coin = some group ∧
        s' = { s with
          currentGroup := openGroup s
          coinGroups := insertAt s.coinGroups (openGroup s) (some group)
          coinLocation := insertAt s.coinLocation coin
            (some (openGroup s, UInt32.ofNat (s.coinGroup (openGroup s)).val.length))
          events := s.events ++ [.coinDeposited coin (openGroup s)
            (UInt32.ofNat (s.coinGroup (openGroup s)).val.length)] } := by
  simp only [registerCoin, bind_eq_ok, okOr_eq_ok, pure_eq_ok, State.depositEvent,
    @eq_comm _ s']

theorem depositCoin_eq_ok {coin : U8Array 32} {amount : UInt64} {p : List UInt8} :
    depositCoin T s o coin amount p = .ok s' ↔
      ∃ who, o = .signed who ∧ s.coinLocation coin = none ∧
        T.proofVerifier.verifyDepositOpen coin amount p (T.encodeAccount who) ∧
        ∃ ledger, T.currency.transfer s.ledger who T.poolAccount amount.toNat .keepAlive
            = some ledger ∧
          registerCoin { s with ledger } coin = .ok s' := by
  simp [depositCoin]

/-- The change coin of a purchase, where there is change. -/
def CoinSpendPublic.newCoin (inputs : CoinSpendPublic) : Option (U8Array 32) :=
  if inputs.change = U8Array.zero 32 then none else some inputs.changeCoin

variable (T) in
/-- The change coin is new, and what it adds to the change is a serial. -/
def ChangeConverted (s : State L) (pi : List UInt8) (inputs : CoinSpendPublic)
    (g1Pok : List UInt8) : Prop :=
  ∀ coin ∈ inputs.newCoin, s.coinLocation coin = none ∧
    T.proofVerifier.verifyG1Pok coin inputs.change g1Pok (T.blake2_256 pi).toList = true

/-- A coin joins the open group, where there is one to join. -/
def registerNew (s : State L) : Option (U8Array 32) → DispatchResult (State L)
  | some coin => registerCoin s coin
  | none => .ok s

theorem registerChange_eq_ok {pi g1Pok : List UInt8} {inputs : CoinSpendPublic} :
    registerChange T s inputs (decide (inputs.change ≠ U8Array.zero 32)) g1Pok
        (T.blake2_256 pi).toList = .ok s' ↔
      ChangeConverted T s pi inputs g1Pok ∧ registerNew s inputs.newCoin = .ok s' := by
  unfold ChangeConverted CoinSpendPublic.newCoin
  by_cases hchange : inputs.change = U8Array.zero 32
  · simp [registerChange, registerNew, hchange]
  · simp [registerChange, registerNew, hchange, and_assoc]

variable (T) in
/-- The one-of-many proof holds at a price. -/
def CoinOpensAt (s : State L) (pi : List UInt8) (inputs : CoinSpendPublic) (proof : List UInt8)
    (price : UInt64) : Prop :=
  T.proofVerifier.verifyOneOfMany proof
    (T.proofVerifier.padGroup (s.coinGroup inputs.groupId).val inputs.groupId) inputs.serial price
    inputs.change (T.blake2_256 pi).toList = true

/-- The state with the serial marked. -/
def markSerial (s : State L) (serial : U8Array 32) : State L :=
  { s with serialUsed := insertAt s.serialUsed serial true }

theorem spendCoin_eq_ok {pi proof g1Pok : List UInt8} {inputs : CoinSpendPublic} {price : UInt64} :
    spendCoin T s pi inputs price proof g1Pok = .ok s' ↔
      decide (inputs.change ≠ U8Array.zero 32) = decide (inputs.changeCoin ≠ U8Array.zero 32) ∧
      CoinOpensAt T s pi inputs proof price ∧ ChangeConverted T s pi inputs g1Pok ∧ ∃ t,
      registerNew s inputs.newCoin = .ok t ∧ s' = markSerial t inputs.serial := by
  simp only [spendCoin, bind_eq_ok, ensure_eq_ok, pure_eq_ok, exists_const, registerChange_eq_ok,
    @eq_comm _ s']
  constructor
  · rintro ⟨heq, hproof, t, ⟨hchange, ht⟩, hs⟩
    exact ⟨heq, hproof, hchange, t, ht, hs⟩
  · rintro ⟨heq, hproof, hchange, t, ht, hs⟩
    exact ⟨heq, hproof, t, ⟨hchange, ht⟩, hs⟩

theorem purchaseCoin_eq_ok {pi p g : List UInt8} :
    purchaseCoin T s o pi p g = .ok s' ↔ o = .none ∧ ∃ inputs,
      CoinSpendPublic.decode pi = some inputs ∧ s.serialUsed inputs.serial = false ∧
      (s.coinGroups inputs.groupId).isSome ∧ 0 < s.rwaPrices inputs.rwaId ∧ ∃ t,
      spendCoin T s pi inputs (s.rwaPrices inputs.rwaId) p g = .ok t ∧
      s' = (t.depositEvent (.coinPurchaseAuthorized inputs.rwaId inputs.txId inputs.groupId
          inputs.changeCoin)).send
        (.rwaPurchase inputs.rwaId inputs.serial inputs.serial (s.rwaPrices inputs.rwaId)
          inputs.txId inputs.ownershipCommitment) := by
  simp only [purchaseCoin, bind_eq_ok, ensureNone_eq_ok, ensure_eq_ok, okOr_eq_ok, pure_eq_ok,
    exists_const, @eq_comm _ s']

theorem purchaseAccessCoin_eq_ok {pi p g : List UInt8} :
    purchaseAccessCoin T s o pi p g = .ok s' ↔ o = .none ∧ ∃ inputs,
      CoinSpendPublic.decode pi = some inputs ∧ s.serialUsed inputs.serial = false ∧
      (s.coinGroups inputs.groupId).isSome ∧ ∃ cfg,
      s.accessKeyConfigs inputs.rwaId = some cfg ∧ 0 < cfg.price ∧ ∃ t,
      spendCoin T s pi inputs cfg.price p g = .ok t ∧ ∃ u, payApp T t cfg = .ok u ∧
      s' = (u.depositEvent (.accessPurchaseAuthorized inputs.rwaId inputs.txId)).send
        (.accessKey inputs.rwaId inputs.serial inputs.txId inputs.ownershipCommitment) := by
  simp only [purchaseAccessCoin, bind_eq_ok, ensureNone_eq_ok, ensure_eq_ok, okOr_eq_ok,
    pure_eq_ok, exists_const, @eq_comm _ s']

theorem withdrawCoin_eq_ok {pi p : List UInt8} :
    withdrawCoin T s o pi p = .ok s' ↔
      o = .none ∧ ∃ inputs, CoinWithdrawPublic.decode pi = some inputs ∧
        s.serialUsed inputs.serial = false ∧ (s.coinGroups inputs.groupId).isSome ∧
        T.proofVerifier.verifyOneOfMany p
          (T.proofVerifier.padGroup (s.coinGroup inputs.groupId).val inputs.groupId)
          inputs.serial inputs.amount (U8Array.zero 32) (T.blake2_256 pi).toList ∧
        ∃ dest, T.decodeAccount inputs.destination.toList = some dest ∧
          ∃ ledger, T.currency.transfer s.ledger T.poolAccount dest inputs.amount.toNat
              .allowDeath = some ledger ∧
            s' = { s with
              serialUsed := insertAt s.serialUsed inputs.serial true
              ledger
              events := s.events ++ [.coinWithdrawCompleted inputs.txId inputs.amount] } := by
  simp [withdrawCoin, State.depositEvent, @eq_comm _ s']

end NullaRelay.ScanProof
