import NullaRelay.ScanProof.NoteLane

/-!
# From the pool to dispatch

A note call that the pool admits pays no fee, so it should not fail afterwards. The
admission repeats the checks of the nullifier, the note, the price and the opening
proof. It looks neither at the change note, which has to be new and to find room in
the tree, nor at the account that is paid.
-/

namespace NullaRelay.ScanProof

open NullaRelay.Frame Transition

variable {A L : Type} {T : Config A L} {s : State L}

/-- The unsigned calls that spend a note. -/
def Call.spendsNote {R : ℕ} : Call R → Bool
  | .purchaseRwa .. => true
  | .withdrawPrivate .. => true
  | .purchaseAccess .. => true
  | _ => false

variable (T s) in
/-- The transfer out of the pool that the call asks for succeeds, whoever the account
is. -/
def TransferSucceeds : Call T.maxRangeProofSize → Prop
  | .withdrawPrivate _ _ _ destination value => ∀ dest ∈ T.decodeAccount destination,
      (T.currency.transfer s.ledger T.poolAccount dest value.toNat .allowDeath).isSome
  | .purchaseAccess _ _ _ appId _ _ _ => ∀ cfg ∈ s.accessKeyConfigs appId,
      ∀ dest ∈ T.decodeAccount cfg.paymentAccount.toList,
        (T.currency.transfer s.ledger T.poolAccount dest cfg.price.toNat .allowDeath).isSome
  | _ => True

variable (s) in
/-- The change note is new and finds room. -/
def ChangeFits (change : Option (U8Array 32)) : Prop :=
  ∀ cc ∈ change, s.commitmentIndex cc = none ∧ s.leaves.val.length < 1048576

variable (T s) in
/-- What dispatch checks and the admission does not. -/
def Dispatchable : Call T.maxRangeProofSize → Prop
  | .purchaseRwa _ _ _ _ _ _ change => ChangeFits s change
  | .withdrawPrivate _ _ _ destination _ =>
      destination.length = 32 ∧ (T.decodeAccount destination).isSome
  | .purchaseAccess _ _ _ appId _ _ change => ChangeFits s change ∧
      ∀ cfg ∈ s.accessKeyConfigs appId, (T.decodeAccount cfg.paymentAccount.toList).isSome
  | _ => True

theorem changeFits_iff {change : Option (U8Array 32)} {t : State L} (ht : t.leaves = s.leaves) :
    ChangeFits s change ↔ (∀ cc ∈ change, s.commitmentIndex cc = none) ∧
      ∃ u, insertChange T t change = .ok u := by
  rw [insertChange_ok_iff, ht]
  cases change with
  | none => simp [ChangeFits]
  | some cc => simp [ChangeFits]

/-- An admitted purchase of an asset succeeds where its change fits. -/
theorem admitted_purchaseRwa_ok_iff {c n id oc : U8Array 32} {p : List UInt8} {tx : U8Array 16}
    {change : Option (U8Array 32)}
    (hadmitted : ∃ v, validatePurchaseRwa T s c p n id tx change = .ok v) :
    (∃ s', purchaseRwa T s .none c p n id tx oc change = .ok s') ↔ ChangeFits s change := by
  obtain ⟨hn, hc, hprice, hopen⟩ := validatePurchaseRwa_ok.1 hadmitted
  rw [changeFits_iff (T := T) (s := s) (t := markNullifier s n) rfl]
  constructor
  · rintro ⟨s', hs'⟩
    obtain ⟨-, -, -, -, hnew, -, t, ht, -⟩ := purchaseRwa_eq_ok.1 hs'
    exact ⟨hnew, t, ht⟩
  · rintro ⟨hnew, t, ht⟩
    exact ⟨_, purchaseRwa_eq_ok.2 ⟨rfl, hn, hc, hprice, hnew, hopen, t, ht, rfl⟩⟩

/-- An admitted purchase of access succeeds where its change fits and the account of
the app can be decoded. -/
theorem admitted_purchaseAccess_ok_iff {c n id ac : U8Array 32} {p : List UInt8} {tx : U8Array 16}
    {change : Option (U8Array 32)}
    (hadmitted : ∃ v, validatePurchaseAccess T s c p n id tx change = .ok v)
    (hpays : TransferSucceeds T s (.purchaseAccess c p n id tx ac change)) :
    (∃ s', purchaseAccess T s .none c p n id tx ac change = .ok s') ↔ ChangeFits s change ∧
      ∀ cfg ∈ s.accessKeyConfigs id, (T.decodeAccount cfg.paymentAccount.toList).isSome := by
  obtain ⟨hn, hc, cfg, hcfg, hprice, hopen⟩ := validatePurchaseAccess_ok.1 hadmitted
  constructor
  · rintro ⟨s', hs'⟩
    obtain ⟨-, -, -, cfg', hcfg', -, hnew, -, t, ht, u, hu, -⟩ := purchaseAccess_eq_ok.1 hs'
    obtain ⟨dest, hdest, ledger, -, rfl⟩ := payApp_eq_ok.1 ht
    refine ⟨(changeFits_iff (s := s) (t := { markNullifier s n with ledger }) rfl).2
      ⟨hnew, u, hu⟩, fun cfg'' hcfg'' => ?_⟩
    obtain rfl := Option.some.inj (hcfg'.symm.trans hcfg'')
    exact Option.isSome_of_eq_some hdest
  · rintro ⟨hfits, hdecodes⟩
    obtain ⟨dest, hdest⟩ := Option.isSome_iff_exists.1 (hdecodes cfg hcfg)
    obtain ⟨ledger, hledger⟩ := Option.isSome_iff_exists.1 (hpays cfg hcfg dest hdest)
    obtain ⟨hnew, u, hu⟩ :=
      (changeFits_iff (T := T) (s := s) (t := { markNullifier s n with ledger }) rfl).1 hfits
    exact ⟨_, purchaseAccess_eq_ok.2 ⟨rfl, hn, hc, cfg, hcfg, hprice, hnew, hopen, _,
      payApp_eq_ok.2 ⟨dest, hdest, ledger, hledger, rfl⟩, u, hu, rfl⟩⟩

/-- An admitted withdrawal succeeds where its destination is an account. -/
theorem admitted_withdrawPrivate_ok_iff {c n : U8Array 32} {p dest : List UInt8} {v : UInt64}
    (hadmitted : ∃ t, validateWithdrawPrivate T s c n p v = .ok t)
    (hpays : TransferSucceeds T s (.withdrawPrivate c n p dest v)) :
    (∃ s', withdrawPrivate T s .none c n p dest v = .ok s') ↔
      dest.length = 32 ∧ (T.decodeAccount dest).isSome := by
  obtain ⟨hn, hc, -, hopen⟩ := validateWithdrawPrivate_ok.1 hadmitted
  constructor
  · rintro ⟨s', hs'⟩
    obtain ⟨-, -, -, -, hlen, account, hdecode, -⟩ := withdrawPrivate_eq_ok.1 hs'
    exact ⟨hlen, Option.isSome_of_eq_some hdecode⟩
  · rintro ⟨hlen, hdecodes⟩
    obtain ⟨account, hdecode⟩ := Option.isSome_iff_exists.1 hdecodes
    obtain ⟨ledger, hledger⟩ := Option.isSome_iff_exists.1 (hpays account hdecode)
    exact ⟨_, withdrawPrivate_eq_ok.2 ⟨rfl, hc, hn, hopen, hlen, account, hdecode, ledger,
      hledger, rfl⟩⟩

/-- An admitted note call whose transfer succeeds is dispatched exactly when it meets
the checks that the admission leaves out. -/
theorem admitted_call_succeeds_iff {call : Call T.maxRangeProofSize}
    (hspends : call.spendsNote = true) (hadmitted : ∃ v, validateUnsigned T s call = .ok v)
    (hpays : TransferSucceeds T s call) :
    (∃ s', dispatch T s .none call = .ok s') ↔ Dispatchable T s call := by
  match call, hspends with
  | .purchaseRwa .., _ => exact admitted_purchaseRwa_ok_iff hadmitted
  | .withdrawPrivate .., _ => exact admitted_withdrawPrivate_ok_iff hadmitted hpays
  | .purchaseAccess .., _ => exact admitted_purchaseAccess_ok_iff hadmitted hpays

section Example

/-- The chain after one deposit. -/
noncomputable def oneNote : State (U8Array 32 → ℕ) :=
  run (apply vectorConfig) (genesis respentLedger) [respentDeposit 5]

/-- A withdrawal of the deposited note to the given account bytes. -/
def withdrawalTo (destination : List UInt8) : Call vectorConfig.maxRangeProofSize :=
  .withdrawPrivate (respentNote 5) (U8Array.ofNat 32 7) zeroOpening destination 10

theorem withdrawalTo_admitted (destination : List UInt8) :
    (∃ v, validateUnsigned vectorConfig oneNote (withdrawalTo destination) = .ok v) ∧
      TransferSucceeds vectorConfig oneNote (withdrawalTo destination) := by
  obtain ⟨s, hs, hledger, hused, -, hindex⟩ := @respentDeposit_ok (genesis respentLedger) 5
    (by norm_num) rfl (by simp [genesis, respentLedger]) (by decide)
  have hrun : oneNote = s := by rw [oneNote, run_cons, next_ok hs, run_nil]
  rw [hrun]
  constructor
  · refine validateWithdrawPrivate_ok.2 ⟨?_, ?_, List.length_replicate, ?_⟩
    · rw [hused]
      rfl
    · rw [hindex]
      simp
    · exact (relationVerifier_verifyOpeningKnowledge _).2
        ⟨List.length_replicate, respentNote_opens (by norm_num)⟩
  · intro dest _
    have hfunds : (10 : UInt64).toNat ≤ s.ledger vectorConfig.poolAccount := by
      rw [hledger, moveBalance_dest respentAccount_ne_pool]
      exact Nat.le_add_left _ _
    exact Option.isSome_of_eq_some (balances_transfer_of_le hfunds dest .allowDeath)

/-- The admission does not look at the destination: a withdrawal to no account is
admitted and fails. -/
theorem withdrawal_to_nobody_fails :
    ¬ ∀ (s : State (U8Array 32 → ℕ)) (call : Call vectorConfig.maxRangeProofSize),
      call.spendsNote = true → (∃ v, validateUnsigned vectorConfig s call = .ok v) →
      TransferSucceeds vectorConfig s call →
      ∃ s', dispatch vectorConfig s .none call = .ok s' := by
  intro hclaim
  obtain ⟨hadmitted, hpays⟩ := withdrawalTo_admitted []
  obtain ⟨s', hs'⟩ := hclaim oneNote (withdrawalTo []) rfl hadmitted hpays
  obtain ⟨-, -, -, -, hlen, -⟩ := withdrawPrivate_eq_ok.1 hs'
  cases hlen

/-- To an account of 32 bytes it succeeds. -/
theorem withdrawal_to_account_succeeds :
    ∃ s', dispatch vectorConfig oneNote .none (withdrawalTo respentAccount.toList) = .ok s' := by
  obtain ⟨hadmitted, hpays⟩ := withdrawalTo_admitted respentAccount.toList
  refine (admitted_call_succeeds_iff rfl hadmitted hpays).2 ⟨by simp, ?_⟩
  have htake : respentAccount.toList.take 32 = respentAccount.toList :=
    List.take_of_length_le (by simp)
  exact Option.isSome_of_eq_some (copyFromSlice_eq_some.2 htake)

end Example

end NullaRelay.ScanProof
