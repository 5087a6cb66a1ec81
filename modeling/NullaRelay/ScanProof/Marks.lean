import NullaRelay.ScanProof.CoinPurchases

/-!
# What a call marks as spent

Every call that succeeds marks the nullifiers and the serials it names, found
them unused, and marks nothing else: `dispatch_marks`. The one-time rules of
both lanes rest on this lemma alone, call by call below it.
-/

namespace NullaRelay.ScanProof

open NullaRelay.Frame

theorem markAll_eq_true {used : U8Array 32 → Bool} {keys : List (U8Array 32)} {k : U8Array 32} :
    markAll used keys k = true ↔ used k = true ∨ k ∈ keys := by
  induction keys generalizing used with
  | nil => simp [markAll]
  | cons key keys ih =>
      have hcons : markAll used (key :: keys) = markAll (insertAt used key true) keys := rfl
      rw [hcons, ih, List.mem_cons, ← or_assoc]
      refine or_congr_left ?_
      by_cases hk : k = key
      · simp [hk]
      · simp [hk]

/-- The nullifiers a call names. -/
def Call.nullifiers {R : ℕ} : Call R → List (U8Array 32)
  | .submitProof _ _ publicInputs _ =>
      ((ProofPublicInputs.decode publicInputs).map ProofPublicInputs.nullifiers).getD []
  | .purchaseRwa _ _ nullifier _ _ _ _ => [nullifier]
  | .withdrawPrivate _ nullifier _ _ _ => [nullifier]
  | .purchaseAccess _ _ nullifier _ _ _ _ => [nullifier]
  | _ => []

/-- The coin serials a call names. -/
def Call.serials {R : ℕ} : Call R → List (U8Array 32)
  | .purchaseCoin publicInputs _ _ =>
      ((CoinSpendPublic.decode publicInputs).map fun p => p.serial).toList
  | .withdrawCoin publicInputs _ =>
      ((CoinWithdrawPublic.decode publicInputs).map fun p => p.serial).toList
  | .purchaseAccessCoin publicInputs _ _ =>
      ((CoinSpendPublic.decode publicInputs).map fun p => p.serial).toList
  | _ => []

/-- The step found the keys unused and marked exactly these. -/
structure Marks {L : Type} (s s' : State L) (nullifiers serials : List (U8Array 32)) : Prop where
  nullifier_fresh : ∀ n ∈ nullifiers, s.nullifierUsed n = false
  serial_fresh : ∀ n ∈ serials, s.serialUsed n = false
  nullifierUsed : s'.nullifierUsed = markAll s.nullifierUsed nullifiers
  serialUsed : s'.serialUsed = markAll s.serialUsed serials

variable {A L : Type} {T : Config A L} {s s' t : State L}

namespace Marks

theorem of_eq (hn : s'.nullifierUsed = s.nullifierUsed) (hs : s'.serialUsed = s.serialUsed) :
    Marks s s' [] [] :=
  ⟨by simp, by simp, hn, hs⟩

/-- What follows the marking and touches neither set changes nothing here. -/
theorem trans_nil {ns ss : List (U8Array 32)} (h : Marks s t ns ss) (h' : Marks t s' [] []) :
    Marks s s' ns ss :=
  ⟨h.nullifier_fresh, h.serial_fresh, h'.nullifierUsed.trans h.nullifierUsed,
    h'.serialUsed.trans h.serialUsed⟩

end Marks

theorem insertNote_marks {c : U8Array 32} (h : insertNote T s c = .ok s') : Marks s s' [] [] := by
  obtain ⟨leaves, -, rfl⟩ := insertNote_eq_ok.1 h
  exact Marks.of_eq rfl rfl

theorem insertChange_marks {change : Option (U8Array 32)} (h : insertChange T s change = .ok s') :
    Marks s s' [] [] := by
  cases change with
  | none =>
      obtain rfl : s = s' := by simpa [insertChange] using h
      exact Marks.of_eq rfl rfl
  | some cc => exact insertNote_marks h

theorem payApp_marks {cfg : AppConfig} (h : payApp T s cfg = .ok s') : Marks s s' [] [] := by
  obtain ⟨_, -, _, -, rfl⟩ := payApp_eq_ok.1 h
  exact Marks.of_eq rfl rfl

theorem registerCoin_marks {coin : U8Array 32} (h : registerCoin s coin = .ok s') :
    Marks s s' [] [] := by
  obtain ⟨_, -, rfl⟩ := registerCoin_eq_ok.1 h
  exact Marks.of_eq rfl rfl

theorem markNullifier_marks {n : U8Array 32} (hn : s.nullifierUsed n = false) :
    Marks s (markNullifier s n) [n] [] :=
  ⟨by simpa using hn, by simp, rfl, rfl⟩

theorem registerNew_marks {coin : Option (U8Array 32)} (h : registerNew s coin = .ok s') :
    Marks s s' [] [] := by
  cases coin with
  | none =>
      obtain rfl : s = s' := Except.ok.inj h
      exact Marks.of_eq rfl rfl
  | some coin => exact registerCoin_marks h

theorem spendCoin_marks {pi g : List UInt8} {inputs : CoinSpendPublic} {price : UInt64}
    {proof : List UInt8} (hs : s.serialUsed inputs.serial = false)
    (h : spendCoin T s pi inputs price proof g = .ok s') : Marks s s' [] [inputs.serial] := by
  obtain ⟨-, -, -, t, ht, rfl⟩ := spendCoin_eq_ok.1 h
  have hmid := registerNew_marks ht
  exact ⟨by simp, by simpa using hs, hmid.nullifierUsed,
    congrArg (insertAt · inputs.serial true) hmid.serialUsed⟩

theorem depositPublic_marks {o : Origin A} {c : List UInt8}
    {rp : BoundedVec UInt8 T.maxRangeProofSize} {hints : BoundedVec UInt8 4096}
    (h : depositPublic T s o c rp hints = .ok s') : Marks s s' [] [] := by
  obtain ⟨_, -, _, -, _, _, -, -, ledger, -, -, t, ht, rfl⟩ := depositPublic_eq_ok.1 h
  have hmark := insertNote_marks ht
  exact Marks.of_eq hmark.nullifierUsed hmark.serialUsed

theorem submitProof_marks {o : Origin A} {p pi : List UInt8}
    {rp : BoundedVec UInt8 T.maxRangeProofSize} {hints : BoundedVec UInt8 4096}
    (h : submitProof T s o p rp pi hints = .ok s') :
    ∃ inputs, ProofPublicInputs.decode pi = some inputs ∧ Marks s s' inputs.nullifiers [] := by
  obtain ⟨inputs, leaves, hcheck, -, rfl⟩ := submitProof_of_ok h
  exact ⟨inputs, hcheck.decoded, hcheck.fresh, by simp, rfl, rfl⟩

theorem purchaseRwa_marks {o : Origin A} {c n id oc : U8Array 32} {p : List UInt8}
    {tx : U8Array 16} {change : Option (U8Array 32)}
    (h : purchaseRwa T s o c p n id tx oc change = .ok s') : Marks s s' [n] [] := by
  obtain ⟨-, hn, -, -, -, -, t, ht, rfl⟩ := purchaseRwa_eq_ok.1 h
  exact ((markNullifier_marks hn).trans_nil (insertChange_marks ht)).trans_nil
    (Marks.of_eq rfl rfl)

theorem purchaseAccess_marks {o : Origin A} {c n id ac : U8Array 32} {p : List UInt8}
    {tx : U8Array 16} {change : Option (U8Array 32)}
    (h : purchaseAccess T s o c p n id tx ac change = .ok s') : Marks s s' [n] [] := by
  obtain ⟨-, hn, -, cfg, -, -, -, -, t, ht, u, hu, rfl⟩ := purchaseAccess_eq_ok.1 h
  exact (((markNullifier_marks hn).trans_nil (payApp_marks ht)).trans_nil
    (insertChange_marks hu)).trans_nil (Marks.of_eq rfl rfl)

theorem withdrawPrivate_marks {o : Origin A} {c n : U8Array 32} {p dest : List UInt8}
    {v : UInt64} (h : withdrawPrivate T s o c n p dest v = .ok s') : Marks s s' [n] [] := by
  obtain ⟨-, -, hn, -, -, _, -, _, -, rfl⟩ := withdrawPrivate_eq_ok.1 h
  exact ⟨by simpa using hn, by simp, rfl, rfl⟩

theorem depositCoin_marks {o : Origin A} {coin : U8Array 32} {amount : UInt64}
    {p : List UInt8} (h : depositCoin T s o coin amount p = .ok s') : Marks s s' [] [] := by
  obtain ⟨_, -, -, -, ledger, -, ht⟩ := depositCoin_eq_ok.1 h
  have hmark := registerCoin_marks ht
  exact Marks.of_eq hmark.nullifierUsed hmark.serialUsed

theorem withdrawCoin_marks {o : Origin A} {pi p : List UInt8}
    (h : withdrawCoin T s o pi p = .ok s') :
    ∃ inputs, CoinWithdrawPublic.decode pi = some inputs ∧ Marks s s' [] [inputs.serial] := by
  obtain ⟨-, inputs, hdec, hs, -, -, _, -, _, -, rfl⟩ := withdrawCoin_eq_ok.1 h
  exact ⟨inputs, hdec, by simp, by simpa using hs, rfl, rfl⟩

theorem purchaseCoin_marks {o : Origin A} {pi p g : List UInt8}
    (h : purchaseCoin T s o pi p g = .ok s') :
    ∃ inputs, CoinSpendPublic.decode pi = some inputs ∧ Marks s s' [] [inputs.serial] := by
  obtain ⟨-, inputs, hdec, hs, -, -, t, ht, rfl⟩ := purchaseCoin_eq_ok.1 h
  exact ⟨inputs, hdec, (spendCoin_marks hs ht).trans_nil (Marks.of_eq rfl rfl)⟩

theorem purchaseAccessCoin_marks {o : Origin A} {pi p g : List UInt8}
    (h : purchaseAccessCoin T s o pi p g = .ok s') :
    ∃ inputs, CoinSpendPublic.decode pi = some inputs ∧ Marks s s' [] [inputs.serial] := by
  obtain ⟨-, inputs, hdec, hs, -, cfg, -, -, t, ht, u, hu, rfl⟩ := purchaseAccessCoin_eq_ok.1 h
  exact ⟨inputs, hdec, ((spendCoin_marks hs ht).trans_nil (payApp_marks hu)).trans_nil
    (Marks.of_eq rfl rfl)⟩

/-- A call that succeeds marks the keys it names, which were unused, and no
other. -/
theorem dispatch_marks {o : Origin A} {c : Call T.maxRangeProofSize}
    (h : dispatch T s o c = .ok s') : Marks s s' c.nullifiers c.serials := by
  cases c with
  | depositPublic => exact depositPublic_marks h
  | submitProof =>
      obtain ⟨inputs, hdec, hmark⟩ := submitProof_marks h
      simpa [Call.nullifiers, Call.serials, hdec] using hmark
  | purchaseRwa => exact purchaseRwa_marks h
  | withdrawPrivate => exact withdrawPrivate_marks h
  | setRwaPrice =>
      simp only [dispatch, setRwaPrice, bind_eq_ok, pure_eq_ok] at h
      obtain ⟨_, -, rfl⟩ := h
      exact Marks.of_eq rfl rfl
  | setAccessConfig =>
      simp only [dispatch, setAccessConfig, bind_eq_ok, pure_eq_ok] at h
      obtain ⟨_, -, rfl⟩ := h
      exact Marks.of_eq rfl rfl
  | purchaseAccess => exact purchaseAccess_marks h
  | depositCoin => exact depositCoin_marks h
  | purchaseCoin =>
      obtain ⟨inputs, hdec, hmark⟩ := purchaseCoin_marks h
      simpa [Call.nullifiers, Call.serials, hdec] using hmark
  | withdrawCoin =>
      obtain ⟨inputs, hdec, hmark⟩ := withdrawCoin_marks h
      simpa [Call.nullifiers, Call.serials, hdec] using hmark
  | purchaseAccessCoin =>
      obtain ⟨inputs, hdec, hmark⟩ := purchaseAccessCoin_marks h
      simpa [Call.nullifiers, Call.serials, hdec] using hmark

theorem apply_marks {x : Extrinsic A T.maxRangeProofSize} (h : apply T s x = .ok s') :
    Marks s s' x.call.nullifiers x.call.serials :=
  dispatch_marks (apply_eq_ok.1 h).2

end NullaRelay.ScanProof
