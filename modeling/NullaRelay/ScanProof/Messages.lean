import NullaRelay.ScanProof.Marks
import NullaRelay.ScanProof.NotePurchases

/-!
# The messages of a ScanProof call

A purchase sends one message, to the RWA chain or to AuthGate, and no other call
sends any.
-/

namespace NullaRelay.ScanProof

open NullaRelay.Frame

variable {A L : Type} {T : Config A L} {s s' : State L}

/-- The message that a call sends when it succeeds. -/
def Call.message {R : ℕ} (s : State L) : Call R → Option Message
  | .purchaseRwa _ _ nullifier rwaId txId ownershipCommitment _ =>
      some (.rwaPurchase rwaId nullifier (U8Array.zero 32) (s.rwaPrices rwaId) txId
        ownershipCommitment)
  | .purchaseAccess _ _ nullifier appId txId accessKeyCommitment _ =>
      some (.accessKey appId nullifier txId accessKeyCommitment)
  | .purchaseCoin pi _ _ => (CoinSpendPublic.decode pi).map fun i =>
      .rwaPurchase i.rwaId i.serial i.serial (s.rwaPrices i.rwaId) i.txId i.ownershipCommitment
  | .purchaseAccessCoin pi _ _ => (CoinSpendPublic.decode pi).map fun i =>
      .accessKey i.rwaId i.serial i.txId i.ownershipCommitment
  | _ => none

theorem insertNote_sent {c : U8Array 32} (h : insertNote T s c = .ok s') : s'.sent = s.sent := by
  obtain ⟨leaves, -, rfl⟩ := insertNote_eq_ok.1 h
  rfl

theorem insertChange_sent {change : Option (U8Array 32)} (h : insertChange T s change = .ok s') :
    s'.sent = s.sent := by
  cases change with
  | none =>
      obtain rfl : s = s' := by simpa [insertChange] using h
      rfl
  | some cc => exact insertNote_sent h

theorem payApp_sent {cfg : AppConfig} (h : payApp T s cfg = .ok s') : s'.sent = s.sent := by
  obtain ⟨_, -, _, -, rfl⟩ := payApp_eq_ok.1 h
  rfl

theorem registerCoin_sent {coin : U8Array 32} (h : registerCoin s coin = .ok s') :
    s'.sent = s.sent := by
  obtain ⟨_, -, rfl⟩ := registerCoin_eq_ok.1 h
  rfl

theorem registerNew_sent {coin : Option (U8Array 32)} (h : registerNew s coin = .ok s') :
    s'.sent = s.sent := by
  cases coin with
  | none =>
      obtain rfl : s = s' := Except.ok.inj h
      rfl
  | some coin => exact registerCoin_sent h

theorem spendCoin_sent {pi g : List UInt8} {inputs : CoinSpendPublic} {price : UInt64}
    {proof : List UInt8} (h : spendCoin T s pi inputs price proof g = .ok s') :
    s'.sent = s.sent := by
  obtain ⟨-, -, -, t, ht, rfl⟩ := spendCoin_eq_ok.1 h
  have hsent := registerNew_sent ht
  exact hsent

/-- A call that succeeds sends its message. -/
theorem dispatch_sent {o : Origin A} {c : Call T.maxRangeProofSize}
    (h : dispatch T s o c = .ok s') : s'.sent = s.sent ++ (c.message s).toList := by
  rw [Call.message.eq_def]
  cases c with
  | depositPublic c rp hints =>
      obtain ⟨_, -, _, -, _, _, -, -, ledger, -, -, t, ht, rfl⟩ := depositPublic_eq_ok.1 h
      have hsent := insertNote_sent ht
      simpa [State.depositEvent] using hsent
  | submitProof p rp pi hints =>
      obtain ⟨inputs, leaves, -, -, rfl⟩ := submitProof_of_ok h
      simp [State.depositEvent, updateRoot]
  | purchaseRwa c p n id tx oc change =>
      obtain ⟨-, -, -, -, -, -, t, ht, rfl⟩ := purchaseRwa_eq_ok.1 h
      have hsent := insertChange_sent ht
      simp [State.send, State.depositEvent, hsent, markNullifier]
  | withdrawPrivate c n p dest v =>
      obtain ⟨-, -, -, -, -, _, -, _, -, rfl⟩ := withdrawPrivate_eq_ok.1 h
      simp [State.depositEvent]
  | setRwaPrice id price =>
      simp only [dispatch, setRwaPrice, bind_eq_ok, pure_eq_ok] at h
      obtain ⟨_, -, rfl⟩ := h
      simp [State.depositEvent]
  | setAccessConfig id price acc =>
      simp only [dispatch, setAccessConfig, bind_eq_ok, pure_eq_ok] at h
      obtain ⟨_, -, rfl⟩ := h
      simp [State.depositEvent]
  | purchaseAccess c p n id tx ac change =>
      obtain ⟨-, -, -, cfg, -, -, -, -, t, ht, u, hu, rfl⟩ := purchaseAccess_eq_ok.1 h
      have hsent := (insertChange_sent hu).trans (payApp_sent ht)
      simp [State.send, State.depositEvent, hsent, markNullifier]
  | depositCoin coin amount p =>
      obtain ⟨_, -, -, -, ledger, -, ht⟩ := depositCoin_eq_ok.1 h
      have hsent := registerCoin_sent ht
      simpa using hsent
  | purchaseCoin pi p g =>
      obtain ⟨-, inputs, hdec, -, -, -, t, ht, rfl⟩ := purchaseCoin_eq_ok.1 h
      simp [State.send, State.depositEvent, spendCoin_sent ht, hdec]
  | withdrawCoin pi p =>
      obtain ⟨-, inputs, -, -, -, -, _, -, _, -, rfl⟩ := withdrawCoin_eq_ok.1 h
      simp
  | purchaseAccessCoin pi p g =>
      obtain ⟨-, inputs, hdec, -, -, cfg, -, -, t, ht, u, hu, rfl⟩ := purchaseAccessCoin_eq_ok.1 h
      have hsent := (payApp_sent hu).trans (spendCoin_sent ht)
      simp [State.send, State.depositEvent, hsent, hdec]

theorem apply_sent {x : Extrinsic A T.maxRangeProofSize} (h : apply T s x = .ok s') :
    s'.sent = s.sent ++ (x.call.message s).toList :=
  dispatch_sent (apply_eq_ok.1 h).2

end NullaRelay.ScanProof
