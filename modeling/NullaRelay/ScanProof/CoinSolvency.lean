import NullaRelay.AccessSales
import NullaRelay.Foundations.Unspent
import NullaRelay.Frame.Balances
import NullaRelay.ScanProof.CoinLane
import NullaRelay.ScanProof.SpendableCoins

/-!
# The coins are covered

The value of a coin is its component along `G`. A coin is live as long as no marked
serial opens it. Where serials are canonical and the change of a purchase is a plain
commitment to a 64-bit value, which a range proof on it would show, a spend kills a
live coin of the price and the change, and so the pool account holds the value of all
live coins, apart from what the note lane takes out of it.
-/

namespace NullaRelay.ScanProof

open NullaRelay.Frame Transition Verifier OneOfMany Unspent

variable {V : Type} [AddCommGroup V] [Module Scalar V] {P : Primitives V}
  {A L : Type} {T : Config A L} {s s' : State L} {coins : List (U8Array 32)}

variable (P) in
/-- What the three proofs of the coin lane show. -/
structure CoinProofsSound (verifier : ProofVerify) : Prop where
  oneOfMany : OneOfManySound P verifier
  depositOpen : ∀ coin amount proof ctx,
    verifier.verifyDepositOpen coin amount proof ctx = true → DepositOpenRelation P coin amount
  g1Pok : ∀ coin change proof ctx,
    verifier.verifyG1Pok coin change proof ctx = true → G1PokRelation P coin change

variable (P) in
/-- Nobody can open a pad coin: it has no part in the span of the generators. -/
def PadsUnopened : Prop :=
  ∀ g i s v r, P.decompress (padCoin P g i) ≠ some (coinPoint P s v r)

variable (P) in
/-- The coin has the value along `G`. -/
def HoldsValue (coin : U8Array 32) (v : ℕ) : Prop :=
  ∃ s r : Scalar, P.decompress coin = some (coinPoint P s v r)

variable (P) in
/-- The least number that is the component along `G`. -/
noncomputable def committedValue (coin : U8Array 32) : ℕ := sInf {v | HoldsValue P coin v}

variable (P) in
/-- No marked serial opens the coin. -/
def LiveCoin (used : U8Array 32 → Bool) (coin : U8Array 32) : Prop :=
  ∀ serial, used serial = true → ¬ SerialOpens P coin serial

variable (P) in
open Classical in
/-- The value of the live coins. -/
noncomputable def liveValue (used : U8Array 32 → Bool) (coins : List (U8Array 32)) : ℕ :=
  worth (committedValue P) (LiveCoin P used) coins

@[simp] theorem liveValue_nil (used : U8Array 32 → Bool) : liveValue P used [] = 0 := by
  classical
  exact worth_nil

section Values

variable (hind : LinearIndependent Scalar ![generatorG1 P, P.basepoint, generatorH P])
include hind

theorem coinPoint_inj {a b c a' b' c' : Scalar} (h : coinPoint P a b c = coinPoint P a' b' c') :
    a = a' ∧ b = b' ∧ c = c' := by
  have hzero : (a - a') • generatorG1 P + (b - b') • P.basepoint + (c - c') • generatorH P = 0 := by
    calc
      _ = coinPoint P a b c - coinPoint P a' b' c' := by
        rw [coinPoint, coinPoint]
        module
      _ = 0 := sub_eq_zero.2 h
  obtain ⟨ha, hb, hc⟩ := Extraction.triple_eq_zero hind hzero
  exact ⟨sub_eq_zero.1 ha, sub_eq_zero.1 hb, sub_eq_zero.1 hc⟩

theorem HoldsValue.inj {coin : U8Array 32} {v w : ℕ} (hv : HoldsValue P coin v)
    (hw : HoldsValue P coin w) (hvlt : v < groupOrder) (hwlt : w < groupOrder) : v = w := by
  obtain ⟨a, c, hcoin⟩ := hv
  obtain ⟨a', c', hcoin'⟩ := hw
  have hpoint := Option.some.inj (hcoin.symm.trans hcoin')
  exact Scalar.natCast_inj hvlt hwlt (coinPoint_inj hind hpoint).2.1

theorem HoldsValue.committedValue_eq {coin : U8Array 32} {v : ℕ} (h : HoldsValue P coin v)
    (hlt : v < groupOrder) : committedValue P coin = v := by
  have hle : committedValue P coin ≤ v := Nat.sInf_le h
  have hsome : {w | HoldsValue P coin w}.Nonempty := ⟨v, h⟩
  have hmem : HoldsValue P coin (committedValue P coin) := Nat.sInf_mem hsome
  exact hmem.inj hind h (hle.trans_lt hlt) hlt

end Values

/-- A coin that is spent is worth the price and the change, and its serial opens it. -/
theorem opens_of_spendsCoin {coin serial change : U8Array 32} {price : UInt64} {w : ℕ}
    (h : SpendsCoin P coin serial price change) (hchange : OpensTo P change w) :
    HoldsValue P coin (price.toNat + w) ∧ SerialOpens P coin serial := by
  obtain ⟨c, ch, hc, hch, r, hr⟩ := h
  obtain ⟨ch', hch', t, rfl⟩ := hchange
  obtain rfl := Option.some.inj (hch.symm.trans hch')
  have hpoint : c = coinPoint P (Scalar.fromBytesModOrder serial) ((price.toNat + w : ℕ) : Scalar)
      (t + r) := by
    rw [sub_eq_iff_eq_add.1 hr, spendOffset, coinPoint, Scalar.ofU64, Nat.cast_add]
    module
  subst hpoint
  exact ⟨⟨_, _, hc⟩, _, hc, _, _, rfl⟩

/-- The group of a spend is a group of coins; the padding is never spent. -/
theorem PadsUnopened.mem_group (hpads : PadsUnopened P) {coin serial change : U8Array 32}
    {price : UInt64} {w : ℕ} {group : List (U8Array 32)} {g : UInt32}
    (hcoin : coin ∈ padGroup P group g) (h : SpendsCoin P coin serial price change)
    (hchange : OpensTo P change w) : coin ∈ group := by
  rcases List.mem_append.1 hcoin with hmem | hpad
  · exact hmem
  · obtain ⟨k, -, rfl⟩ := List.mem_map.1 hpad
    obtain ⟨⟨a, r, hopen⟩, -⟩ := opens_of_spendsCoin h hchange
    exact absurd hopen (hpads _ _ _ _ _)

theorem holdsValue_of_depositOpen {coin : U8Array 32} {amount : UInt64}
    (h : DepositOpenRelation P coin amount) : HoldsValue P coin amount.toNat := by
  obtain ⟨c, hc, a, r, hr⟩ := h
  refine ⟨a, r, hc.trans (congrArg some ?_)⟩
  rw [sub_eq_iff_eq_add.1 hr, coinPoint, Scalar.ofU64]
  abel

/-- A converted change is a coin of its value. -/
theorem holdsValue_of_g1Pok {coin change : U8Array 32} {w : ℕ}
    (h : G1PokRelation P coin change) (hchange : OpensTo P change w) : HoldsValue P coin w := by
  obtain ⟨c, ch, hc, hch, a, ha⟩ := h
  obtain ⟨ch', hch', t, rfl⟩ := hchange
  obtain rfl := Option.some.inj (hch.symm.trans hch')
  refine ⟨a, t, hc.trans (congrArg some ?_)⟩
  rw [sub_eq_iff_eq_add.1 ha, coinPoint, add_assoc]

/-- The public inputs of a purchase with a coin. -/
def Call.coinPurchase {R : ℕ} : Call R → Option CoinSpendPublic
  | .purchaseCoin pi _ _ | .purchaseAccessCoin pi _ _ => CoinSpendPublic.decode pi
  | _ => none

variable (P) in
/-- What nothing checks of a spend: its serial is canonical, and its change, where it has
one, is a commitment to a 64-bit value. -/
structure FairSpend {R : ℕ} (c : Call R) : Prop where
  canonical : ∀ k ∈ c.serials, Scalar.Canonical k
  plainChange : ∀ i, c.coinPurchase = some i → i.change ≠ U8Array.zero 32 →
    ∃ w : ℕ, w < 2 ^ 64 ∧ OpensTo P i.change w

/-- What a call pays in for a coin. -/
def Call.coinDeposited {R : ℕ} : Call R → ℕ
  | .depositCoin _ amount _ => amount.toNat
  | _ => 0

variable (T) in
/-- What a call pays in for a note of the other lane. -/
def Call.noteDeposited : Call T.maxRangeProofSize → ℕ
  | .depositPublic _ rp _ => (parseDeposit T rp.val).toOption.elim 0 fun d => d.2.toNat
  | _ => 0

/-- The price of an asset that is bought with a coin; it stays in the pool. -/
def Call.coinPaidForRwa {R : ℕ} (s : State L) : Call R → ℕ
  | .purchaseCoin pi _ _ =>
      (CoinSpendPublic.decode pi).elim 0 fun i => (s.rwaPrices i.rwaId).toNat
  | _ => 0

/-- What the pool pays out for a coin. -/
def Call.coinPaidOut {R : ℕ} (s : State L) : Call R → ℕ
  | .purchaseAccessCoin pi _ _ => (CoinSpendPublic.decode pi).elim 0 fun i =>
      (s.accessKeyConfigs i.rwaId).elim 0 fun cfg => cfg.price.toNat
  | .withdrawCoin pi _ => (CoinWithdrawPublic.decode pi).elim 0 fun i => i.amount.toNat
  | _ => 0

/-- What the pool pays out for a note of the other lane. -/
def Call.notePaidOut {R : ℕ} (s : State L) : Call R → ℕ
  | .purchaseAccess _ _ _ id _ _ _ =>
      (s.accessKeyConfigs id).elim 0 fun cfg => cfg.price.toNat
  | .withdrawPrivate _ _ _ _ v => v.toNat
  | _ => 0

variable (P s coins) in
/-- The coins of the state have 64-bit values, and the marked serials are canonical. -/
structure CoinBooks : Prop where
  grouped : Grouped s coins
  valued : ∀ c ∈ coins, ∃ v : ℕ, v < 2 ^ 64 ∧ HoldsValue P c v
  canonical : ∀ k, s.serialUsed k = true → Scalar.Canonical k

theorem u64_add_lt_groupOrder (price : UInt64) {w : ℕ} (hw : w < 2 ^ 64) :
    price.toNat + w < groupOrder := by
  have hprice := price.toNat_lt
  have horder : 2 ^ 65 < groupOrder := by norm_num [groupOrder]
  omega

section Spend

variable (hind : LinearIndependent Scalar ![generatorG1 P, P.basepoint, generatorH P])
  (hpads : PadsUnopened P) (hsound : CoinProofsSound P T.proofVerifier)
  (hpad : T.proofVerifier.padGroup = padGroup P)

include hind hpads hsound hpad

/-- A spend kills a live coin of the price and the change. -/
theorem CoinBooks.spend (h : CoinBooks P s coins) {g : UInt32} {k change : U8Array 32}
    {price : UInt64} {p ctx : List UInt8} {w : ℕ} (hw : w < 2 ^ 64)
    (hchange : OpensTo P change w) (hfresh : s.serialUsed k = false) (hk : Scalar.Canonical k)
    (hproof : T.proofVerifier.verifyOneOfMany p
      (T.proofVerifier.padGroup (s.coinGroup g).val g) k price change ctx = true) :
    price.toNat + w + liveValue P (insertAt s.serialUsed k true) coins ≤
      liveValue P s.serialUsed coins := by
  classical
  obtain ⟨coin, hmem, hspends⟩ := hsound.oneOfMany _ _ _ _ _ _ hproof
  rw [hpad] at hmem
  have hcoin : coin ∈ coins :=
    h.grouped.mem_of_mem_group (hpads.mem_group hmem hspends hchange)
  obtain ⟨hvalue, hopens⟩ := opens_of_spendsCoin hspends hchange
  have hlive : LiveCoin P s.serialUsed coin := by
    intro k' hk' hopens'
    have hkk : k = k' := Scalar.fromBytesModOrder_inj hk (h.canonical k' hk')
      (hopens.scalar_eq hind hopens')
    rw [hkk, hk'] at hfresh
    cases hfresh
  have hdead : ¬ LiveCoin P (insertAt s.serialUsed k true) coin := fun hlive' =>
    hlive' k (Function.update_self ..) hopens
  have hkept (m : U8Array 32) (_ : m ∈ coins)
      (hm : LiveCoin P (insertAt s.serialUsed k true) m) : LiveCoin P s.serialUsed m := by
    intro k' hk'
    refine hm k' ?_
    by_cases hkk : k' = k
    · subst hkk
      exact Function.update_self ..
    · rwa [insertAt, Function.update_of_ne hkk]
  rw [← hvalue.committedValue_eq hind (u64_add_lt_groupOrder price hw)]
  exact worth_spend hcoin hlive hdead hkept

/-- The same, with the change coin that joins. -/
theorem CoinBooks.spend_change (h : CoinBooks P s coins)
    (hzero : P.decompress (U8Array.zero 32) = some 0) {i : CoinSpendPublic} {price : UInt64}
    {p ctx : List UInt8} (hfresh : s.serialUsed i.serial = false) (hk : Scalar.Canonical i.serial)
    (hplain : i.change ≠ U8Array.zero 32 → ∃ w : ℕ, w < 2 ^ 64 ∧ OpensTo P i.change w)
    (hconv : ∀ coin ∈ i.newCoin, G1PokRelation P coin i.change)
    (hproof : T.proofVerifier.verifyOneOfMany p
      (T.proofVerifier.padGroup (s.coinGroup i.groupId).val i.groupId) i.serial price i.change ctx =
        true) :
    price.toNat + liveValue P (insertAt s.serialUsed i.serial true) (coins ++ i.newCoin.toList) ≤
        liveValue P s.serialUsed coins ∧
      ∀ c ∈ i.newCoin, ∃ v : ℕ, v < 2 ^ 64 ∧ HoldsValue P c v := by
  classical
  by_cases hchange : i.change = U8Array.zero 32
  · have hnone : i.newCoin = none := if_pos hchange
    have hopens : OpensTo P i.change (0 : ℕ) := by
      refine ⟨0, hchange ▸ hzero, 0, ?_⟩
      simp
    have hspend := h.spend hind hpads hsound hpad (by norm_num) hopens hfresh hk hproof
    rw [hnone]
    refine ⟨?_, fun c hc => by cases hc⟩
    simpa using hspend
  · have hsome : i.newCoin = some i.changeCoin := if_neg hchange
    obtain ⟨w, hw, hopens⟩ := hplain hchange
    have hspend := h.spend hind hpads hsound hpad hw hopens hfresh hk hproof
    have hvalue := holdsValue_of_g1Pok (hconv _ hsome) hopens
    have hworth : committedValue P i.changeCoin = w :=
      hvalue.committedValue_eq hind (hw.trans (by norm_num [groupOrder]))
    have hnew : liveValue P (insertAt s.serialUsed i.serial true) [i.changeCoin] ≤ w := by
      rw [← hworth]
      exact worth_singleton_le _
    rw [hsome]
    refine ⟨?_, fun c hc => ?_⟩
    · rw [Option.toList_some, liveValue, worth_append, ← liveValue, ← liveValue]
      omega
    · obtain rfl := Option.some.inj hc
      exact ⟨w, hw, hvalue⟩

/-- A purchase with a coin: the live coins lose the price, and the new coin has a value. -/
theorem CoinBooks.purchase (h : CoinBooks P s coins)
    (hzero : P.decompress (U8Array.zero 32) = some 0) {pi p g : List UInt8} {i : CoinSpendPublic}
    {price : UInt64} {t : State L} (hfresh : s.serialUsed i.serial = false)
    (hk : Scalar.Canonical i.serial)
    (hplain : i.change ≠ U8Array.zero 32 → ∃ w : ℕ, w < 2 ^ 64 ∧ OpensTo P i.change w)
    (hspend : spendCoin T s pi i price p g = .ok t) :
    (∀ c ∈ i.newCoin, ∃ v : ℕ, v < 2 ^ 64 ∧ HoldsValue P c v) ∧
      price.toNat + liveValue P (insertAt s.serialUsed i.serial true) (coins ++ i.newCoin.toList) ≤
        liveValue P s.serialUsed coins := by
  obtain ⟨-, hproof, hconv, -⟩ := spendCoin_eq_ok.1 hspend
  have hpok (coin : U8Array 32) (hcoin : coin ∈ i.newCoin) : G1PokRelation P coin i.change :=
    hsound.g1Pok _ _ _ _ (hconv coin hcoin).2
  exact (h.spend_change hind hpads hsound hpad hzero hfresh hk hplain hpok hproof).symm

/-- What a call does to the live coins: they lose what is paid with coins, and gain no
more than what is paid in for them. -/
theorem CoinBooks.call (h : CoinBooks P s coins) (hzero : P.decompress (U8Array.zero 32) = some 0)
    {x : Extrinsic A T.maxRangeProofSize} (hfair : FairSpend P x.call)
    (hok : apply T s x = .ok s') :
    (∀ c ∈ x.call.newCoin, ∃ v : ℕ, v < 2 ^ 64 ∧ HoldsValue P c v) ∧
      x.call.coinPaidForRwa s + x.call.coinPaidOut s +
          liveValue P s'.serialUsed (coins ++ x.call.newCoin.toList) ≤
        liveValue P s.serialUsed coins + x.call.coinDeposited := by
  classical
  have hmarks := (apply_marks hok).serialUsed
  have hcall := (apply_eq_ok.1 hok).2
  generalize x.call = call at hfair hmarks hcall
  rw [hmarks]
  cases call with
  | depositCoin coin amount p =>
      obtain ⟨_, -, -, hopen, -⟩ := depositCoin_eq_ok.1 hcall
      have hvalue := holdsValue_of_depositOpen (hsound.depositOpen _ _ _ _ hopen)
      have hlt := amount.toNat_lt
      refine ⟨fun c hc => ?_, ?_⟩
      · obtain rfl := Option.some.inj hc
        exact ⟨amount.toNat, hlt, hvalue⟩
      · have hworth := hvalue.committedValue_eq hind (hlt.trans (by norm_num [groupOrder]))
        have hnew : liveValue P s.serialUsed [coin] ≤ amount.toNat := by
          rw [← hworth]
          exact worth_singleton_le _
        have happend : liveValue P s.serialUsed (coins ++ [coin]) =
            liveValue P s.serialUsed coins + liveValue P s.serialUsed [coin] := worth_append _ _
        change 0 + 0 + liveValue P s.serialUsed (coins ++ [coin]) ≤ _ + amount.toNat
        omega
  | purchaseCoin pi p g =>
      obtain ⟨-, i, hdec, hfresh, -, -, t, hspend, -⟩ := purchaseCoin_eq_ok.1 hcall
      have hk : Scalar.Canonical i.serial := hfair.canonical _ (by simp [Call.serials, hdec])
      have hbooks := h.purchase hind hpads hsound hpad hzero hfresh hk
        (hfair.plainChange i hdec) hspend
      simp only [Call.newCoin, Call.coinPaidForRwa, Call.coinPaidOut, Call.coinDeposited,
        Call.serials, hdec, Option.bind_some, Option.elim_some, Option.map_some, add_zero]
      exact hbooks
  | purchaseAccessCoin pi p g =>
      obtain ⟨-, i, hdec, hfresh, -, cfg, hcfg, -, t, hspend, -⟩ := purchaseAccessCoin_eq_ok.1 hcall
      have hk : Scalar.Canonical i.serial := hfair.canonical _ (by simp [Call.serials, hdec])
      have hbooks := h.purchase hind hpads hsound hpad hzero hfresh hk
        (hfair.plainChange i hdec) hspend
      simp only [Call.newCoin, Call.coinPaidForRwa, Call.coinPaidOut, Call.coinDeposited,
        Call.serials, hdec, hcfg, Option.bind_some, Option.elim_some, Option.map_some, add_zero,
        zero_add]
      exact hbooks
  | withdrawCoin pi p =>
      obtain ⟨-, i, hdec, hfresh, -, hproof, -⟩ := withdrawCoin_eq_ok.1 hcall
      have hk : Scalar.Canonical i.serial := hfair.canonical _ (by simp [Call.serials, hdec])
      have hopens : OpensTo P (U8Array.zero 32) (0 : ℕ) := by
        refine ⟨0, hzero, 0, ?_⟩
        simp
      have hspend := h.spend hind hpads hsound hpad (by norm_num) hopens hfresh hk
        hproof
      refine ⟨fun c hc => absurd hc (Option.not_mem_none c), ?_⟩
      simp only [Call.newCoin, Call.coinPaidForRwa, Call.coinPaidOut, Call.coinDeposited,
        Call.serials, hdec, Option.elim_some, Option.map_some, Option.toList_none, List.append_nil,
        add_zero, zero_add]
      exact hspend
  | _ =>
      refine ⟨fun c hc => absurd hc (Option.not_mem_none c), ?_⟩
      simp [Call.newCoin, Call.coinPaidForRwa, Call.coinPaidOut, Call.coinDeposited, Call.serials,
        markAll]

/-- A call keeps the coins and the marks as the invariant has them. -/
theorem CoinBooks.step (h : CoinBooks P s coins) (hzero : P.decompress (U8Array.zero 32) = some 0)
    {x : Extrinsic A T.maxRangeProofSize} (hfair : FairSpend P x.call)
    (hok : apply T s x = .ok s') : CoinBooks P s' (coins ++ x.call.newCoin.toList) where
  grouped := h.grouped.step hok
  valued c hc := by
    rcases List.mem_append.1 hc with hold | hnew
    · exact h.valued c hold
    · exact (h.call hind hpads hsound hpad hzero hfair hok).1 c (Option.mem_toList.1 hnew)
  canonical k hk := by
    rw [(apply_marks hok).serialUsed] at hk
    rcases markAll_eq_true.1 hk with hold | hnew
    · exact h.canonical k hold
    · exact hfair.canonical k hnew

end Spend

/-- What a call does to the balances: a deposit pays in, withdrawals and payments to apps
pay out, and the others leave the ledger alone. -/
theorem ledger_of_apply {x : Extrinsic A T.maxRangeProofSize} (hok : apply T s x = .ok s') :
    (∃ who, x.origin = .signed who ∧
        T.currency.transfer s.ledger who T.poolAccount
          (x.call.coinDeposited + x.call.noteDeposited T) .keepAlive = some s'.ledger ∧
        x.call.coinPaidOut s + x.call.notePaidOut s = 0) ∨
      (∃ dest, T.currency.transfer s.ledger T.poolAccount dest
          (x.call.coinPaidOut s + x.call.notePaidOut s) .allowDeath = some s'.ledger ∧
        x.call.coinDeposited + x.call.noteDeposited T = 0) ∨
      s'.ledger = s.ledger ∧ x.call.coinDeposited + x.call.noteDeposited T = 0 ∧
        x.call.coinPaidOut s + x.call.notePaidOut s = 0 := by
  have hcall := (apply_eq_ok.1 hok).2
  generalize x.origin = o at hcall
  generalize x.call = call at hcall
  cases call with
  | depositPublic commitment rp hints =>
      obtain ⟨who, hwho, c, -, bp, amt, hparse, -, ledger, hpay, -, t, ht, rfl⟩ :=
        depositPublic_eq_ok.1 hcall
      refine .inl ⟨who, hwho, ?_, rfl⟩
      simp only [Call.coinDeposited, Call.noteDeposited, hparse, Except.toOption, Option.elim_some,
        zero_add]
      exact hpay.trans (congrArg some (insertNote_ledger ht).symm)
  | submitProof p rp pi hints =>
      obtain ⟨inputs, leaves, -, -, rfl⟩ := submitProof_of_ok hcall
      exact .inr (.inr ⟨rfl, rfl, rfl⟩)
  | purchaseRwa c p n id tx oc change =>
      obtain ⟨-, -, -, -, -, -, t, ht, rfl⟩ := purchaseRwa_eq_ok.1 hcall
      have hledger : t.ledger = (markNullifier s n).ledger := insertChange_ledger ht
      exact .inr (.inr ⟨hledger, rfl, rfl⟩)
  | withdrawPrivate c n p dest v =>
      obtain ⟨-, -, -, -, -, account, -, ledger, hpay, rfl⟩ := withdrawPrivate_eq_ok.1 hcall
      refine .inr (.inl ⟨account, ?_, rfl⟩)
      simp only [Call.coinPaidOut, Call.notePaidOut, zero_add]
      exact hpay
  | setRwaPrice id price =>
      obtain ⟨_, -, hs⟩ := bind_eq_ok.1 hcall
      cases hs
      exact .inr (.inr ⟨rfl, rfl, rfl⟩)
  | setAccessConfig id price acc =>
      obtain ⟨_, -, hs⟩ := bind_eq_ok.1 hcall
      cases hs
      exact .inr (.inr ⟨rfl, rfl, rfl⟩)
  | purchaseAccess c p n id tx ac change =>
      obtain ⟨-, -, -, cfg, hcfg, -, -, -, t, ht, u, hu, rfl⟩ := purchaseAccess_eq_ok.1 hcall
      obtain ⟨dest, -, ledger, hpay, rfl⟩ := payApp_eq_ok.1 ht
      refine .inr (.inl ⟨dest, ?_, rfl⟩)
      simp only [Call.coinPaidOut, Call.notePaidOut, hcfg, Option.elim_some, zero_add]
      exact hpay.trans (congrArg some (insertChange_ledger hu).symm)
  | depositCoin coin amount p =>
      obtain ⟨who, hwho, -, -, ledger, hpay, ht⟩ := depositCoin_eq_ok.1 hcall
      obtain ⟨_, -, rfl⟩ := registerCoin_eq_ok.1 ht
      exact .inl ⟨who, hwho, hpay, rfl⟩
  | purchaseCoin pi p g =>
      obtain ⟨-, i, -, -, -, -, t, ht, rfl⟩ := purchaseCoin_eq_ok.1 hcall
      have hledger : t.ledger = s.ledger := spendCoin_ledger ht
      exact .inr (.inr ⟨hledger, rfl, rfl⟩)
  | withdrawCoin pi p =>
      obtain ⟨-, i, hdec, -, -, -, dest, -, ledger, hpay, rfl⟩ := withdrawCoin_eq_ok.1 hcall
      refine .inr (.inl ⟨dest, ?_, rfl⟩)
      simp only [Call.coinPaidOut, Call.notePaidOut, hdec, Option.elim_some, add_zero]
      exact hpay
  | purchaseAccessCoin pi p g =>
      obtain ⟨-, i, hdec, -, -, cfg, hcfg, -, t, ht, u, hu, rfl⟩ := purchaseAccessCoin_eq_ok.1 hcall
      obtain ⟨dest, -, ledger, hpay, rfl⟩ := payApp_eq_ok.1 hu
      rw [spendCoin_ledger ht] at hpay
      refine .inr (.inl ⟨dest, ?_, rfl⟩)
      simp only [Call.coinPaidOut, Call.notePaidOut, hdec, hcfg, Option.elim_some, add_zero]
      exact hpay

section Pool

variable [DecidableEq A] {free : L → A → ℕ}

/-- The pool gains what is paid in and loses no more than what is paid out. The pool
account itself signs no call: it has no key. -/
theorem pool_of_apply (hmoves : T.currency.Moves free) {x : Extrinsic A T.maxRangeProofSize}
    (hsigner : x.origin ≠ .signed T.poolAccount) (hok : apply T s x = .ok s') :
    free s.ledger T.poolAccount + (x.call.coinDeposited + x.call.noteDeposited T) ≤
      free s'.ledger T.poolAccount + (x.call.coinPaidOut s + x.call.notePaidOut s) := by
  rcases ledger_of_apply hok with
    ⟨who, hwho, hpay, hout⟩ | ⟨dest, hpay, hin⟩ | ⟨hsame, hin, hout⟩
  · have hne : who ≠ T.poolAccount := by
      rintro rfl
      exact hsigner hwho
    rw [hmoves.paid hpay hne, hout]
    exact le_rfl
  · rw [hin]
    exact hmoves.pays hpay
  · rw [hsame, hin, hout]

/-- A sum over the accepted calls. -/
def total {R : ℕ} (f : State L → Call R → ℕ) (past : List (State L × Extrinsic A R)) : ℕ :=
  (past.map fun e => f e.1 e.2.call).sum

omit [DecidableEq A] in
theorem total_append {R : ℕ} (f : State L → Call R → ℕ) (past : List (State L × Extrinsic A R))
    (e : State L × Extrinsic A R) : total f (past ++ [e]) = total f past + f e.1 e.2.call := by
  simp [total]

variable (hind : LinearIndependent Scalar ![generatorG1 P, P.basepoint, generatorH P])
  (hzero : P.decompress (U8Array.zero 32) = some 0) (hpads : PadsUnopened P)

include hind hzero hpads

/-- In every run whose spends are fair the pool holds what it had at genesis, the prices
of the assets bought with coins and the value of all live coins, apart from what the note
lane took out. -/
theorem coin_pool_solvent (T : Config A L) (hsound : CoinProofsSound P T.proofVerifier)
    (hpad : T.proofVerifier.padGroup = padGroup P) (hmoves : T.currency.Moves free) (ledger : L)
    (xs : List (Extrinsic A T.maxRangeProofSize))
    (hsigner : ∀ e ∈ history (apply T) (genesis ledger) xs, e.2.origin ≠ .signed T.poolAccount)
    (hfair : ∀ e ∈ history (apply T) (genesis ledger) xs, FairSpend P e.2.call) :
    free ledger T.poolAccount +
          total (fun s c => c.coinPaidForRwa s) (history (apply T) (genesis ledger) xs) +
          liveValue P (run (apply T) (genesis ledger) xs).serialUsed
            (registeredCoins (history (apply T) (genesis ledger) xs)) ≤
        free (run (apply T) (genesis ledger) xs).ledger T.poolAccount +
          total (fun s c => c.notePaidOut s) (history (apply T) (genesis ledger) xs) := by
  have hrun := @history_invariant _ _ _ (apply T)
    (fun _ x => x.origin ≠ .signed T.poolAccount ∧ FairSpend P x.call)
    (fun s past => CoinBooks P s (registeredCoins past) ∧
      free ledger T.poolAccount + total (fun s c => c.coinPaidForRwa s) past +
          liveValue P s.serialUsed (registeredCoins past) ≤
        free s.ledger T.poolAccount + total (fun s c => c.notePaidOut s) past)
    (fun s x s' past ⟨hbooks, hle⟩ ⟨hx, hx'⟩ hok => by
      have hcall := (hbooks.call hind hpads hsound hpad hzero hx' hok).2
      have hpaid := pool_of_apply hmoves hx hok
      rw [registeredCoins_append_singleton, total_append, total_append]
      refine ⟨hbooks.step hind hpads hsound hpad hzero hx' hok, ?_⟩
      dsimp only
      omega)
    (genesis ledger) xs []
    ⟨⟨grouped_genesis ledger, by simp [registeredCoins], by simp [genesis]⟩, by
      simp [total, registeredCoins, genesis]⟩
    fun e he => ⟨hsigner e he, hfair e he⟩
  exact hrun.2

end Pool

/-! A coin of ten that is deposited and withdrawn, where the padding is a fourth direction
next to the generators. -/

section Example

/-- The points as vectors, with one more direction for what is hashed under any other
label. The last two numbers that a blinding can be stand for the pad coin and for nothing. -/
def paddedPrimitives : Primitives (Point × Scalar) where
  basepoint := ((0, 1, 0), 0)
  decompress bytes :=
    if LittleEndian.leNat (bytes.toList.drop 20) = 256 ^ 12 - 1 then some (0, 1)
    else if LittleEndian.leNat (bytes.toList.drop 20) = 256 ^ 12 - 2 then none
    else some (decodePoint bytes, 0)
  compress p :=
    if p = (0, 1) then encodePoint 0 0 (256 ^ 12 - 1)
    else if p.2 = 0 ∧ p.1.1.val < 256 ^ 10 ∧ p.1.2.1.val < 256 ^ 10 ∧
        p.1.2.2.val < 256 ^ 12 - 2 then
      encodePoint p.1.1.val p.1.2.1.val p.1.2.2.val
    else encodePoint 0 0 (256 ^ 12 - 2)
  fromUniformBytes u :=
    if u = U8Array.padded 64 (byteString "NULLA_SERIAL_GENERATOR") then ((1, 0, 0), 0)
    else if u = U8Array.padded 64 (byteString "VERIFIER_H_GENERATOR") then ((0, 0, 1), 0)
    else (0, 1)
  sha512 := U8Array.padded 64
  blake2b512 := U8Array.padded 64
  challengeBytes _ _ := U8Array.zero 64
  verifyMultiple _ _ _ _ _ _ _ := false

theorem drop_encodePoint {s v r : ℕ} (hr : r < 256 ^ 12) :
    LittleEndian.leNat ((encodePoint s v r).toList.drop 20) = r := by
  have hlen : (LittleEndian.leBytes 10 s ++ LittleEndian.leBytes 10 v).length = 20 := by simp
  simp only [encodePoint, List.Vector.toList]
  rw [← List.append_assoc, List.drop_left' hlen, LittleEndian.leNat_leBytes_of_lt hr]

theorem padded_decompress_encode {s v r : ℕ} (hs : s < 256 ^ 10) (hv : v < 256 ^ 10)
    (hr : r < 256 ^ 12 - 2) : paddedPrimitives.decompress (encodePoint s v r) =
      some (((s : Scalar), (v : Scalar), (r : Scalar)), 0) := by
  have hr12 : r < 256 ^ 12 := by omega
  simp only [paddedPrimitives]
  rw [drop_encodePoint hr12, if_neg (by omega), if_neg (by omega),
    decodePoint_encodePoint hs hv hr12]

/-- What decodes after it was encoded is the point. -/
theorem padded_codec (p q : Point × Scalar)
    (h : paddedPrimitives.decompress (paddedPrimitives.compress p) = some q) : q = p := by
  have hcompress : paddedPrimitives.compress p = if p = (0, 1) then encodePoint 0 0 (256 ^ 12 - 1)
      else if p.2 = 0 ∧ p.1.1.val < 256 ^ 10 ∧ p.1.2.1.val < 256 ^ 10 ∧
        p.1.2.2.val < 256 ^ 12 - 2 then encodePoint p.1.1.val p.1.2.1.val p.1.2.2.val
      else encodePoint 0 0 (256 ^ 12 - 2) := rfl
  rw [hcompress] at h
  split_ifs at h with hpad hsmall
  · simp only [paddedPrimitives] at h
    rw [drop_encodePoint (by norm_num), if_pos rfl] at h
    exact (Option.some.inj h).symm.trans hpad.symm
  · obtain ⟨hlast, hs, hv, hr⟩ := hsmall
    rw [padded_decompress_encode hs hv hr, ZMod.natCast_zmod_val, ZMod.natCast_zmod_val,
      ZMod.natCast_zmod_val, ← hlast] at h
    exact (Option.some.inj h).symm
  · simp only [paddedPrimitives] at h
    rw [drop_encodePoint (by norm_num), if_neg (by norm_num), if_pos rfl] at h
    cases h

theorem padded_generatorG1 : generatorG1 paddedPrimitives = ((1, 0, 0), 0) := by
  simp [generatorG1, paddedPrimitives]

theorem padded_generatorH : generatorH paddedPrimitives = ((0, 0, 1), 0) := by
  have hne : U8Array.padded 64 (byteString "VERIFIER_H_GENERATOR") ≠
      U8Array.padded 64 (byteString "NULLA_SERIAL_GENERATOR") := by decide
  simp [generatorH, paddedPrimitives, hne]

theorem padded_coinPoint (a b c : Scalar) : coinPoint paddedPrimitives a b c = ((a, b, c), 0) := by
  rw [coinPoint, padded_generatorG1, padded_generatorH]
  simp [paddedPrimitives]

theorem padded_independent : LinearIndependent Scalar
    ![generatorG1 paddedPrimitives, paddedPrimitives.basepoint, generatorH paddedPrimitives] := by
  rw [Fintype.linearIndependent_iff]
  intro g hg i
  rw [Fin.sum_univ_three] at hg
  have hpoint : coinPoint paddedPrimitives (g 0) (g 1) (g 2) = 0 := hg
  rw [padded_coinPoint, Prod.mk_eq_zero, Prod.mk_eq_zero, Prod.mk_eq_zero] at hpoint
  fin_cases i
  · exact hpoint.1.1
  · exact hpoint.1.2.1
  · exact hpoint.1.2.2

theorem padded_padCoin (g : UInt32) (i : ℕ) :
    padCoin paddedPrimitives g i = encodePoint 0 0 (256 ^ 12 - 1) := by
  -- the labels differ in their first bytes
  have hlabel (label : String) (hne : (byteString "NULLA_GROUP_PAD").take 7 ≠
      (U8Array.padded 64 (byteString label)).toList.take 7) :
      U8Array.padded 64 (byteString "NULLA_GROUP_PAD" ++ (LittleEndian.leBytes 4 g.toNat ++
        LittleEndian.leBytes 4 i)) ≠ U8Array.padded 64 (byteString label) := fun h =>
    hne (congrArg (fun u => u.toList.take 7) h)
  have hserial := hlabel "NULLA_SERIAL_GENERATOR" (by decide)
  have hblinding := hlabel "VERIFIER_H_GENERATOR" (by decide)
  simp [padCoin, paddedPrimitives, hserial, hblinding]

theorem padded_padsUnopened : PadsUnopened paddedPrimitives := by
  intro g i s v r h
  have hpad : paddedPrimitives.decompress (encodePoint 0 0 (256 ^ 12 - 1)) = some (0, 1) := by
    simp only [paddedPrimitives]
    rw [drop_encodePoint (by norm_num), if_pos rfl]
  rw [padded_padCoin, padded_coinPoint, hpad] at h
  have hlast := congrArg Prod.snd (Option.some.inj h)
  exact one_ne_zero hlast

/-- The pallet over these points, with the verifier of the relations. -/
noncomputable def paddedConfig : Config (U8Array 32) (U8Array 32 → ℕ) :=
  vectorConfig.withVerifier (relationVerifier paddedPrimitives)

theorem padded_proofsSound : CoinProofsSound paddedPrimitives paddedConfig.proofVerifier where
  oneOfMany := relationVerifier_oneOfManySound _
  depositOpen _ _ _ _ h := (relationVerifier_verifyDepositOpen _).1 h
  g1Pok coin change _ _ h :=
    @of_decide_eq_true (G1PokRelation paddedPrimitives coin change) (Classical.propDecidable _) h

theorem padded_decompress_zero : paddedPrimitives.decompress (U8Array.zero 32) = some 0 := by
  have hzero : U8Array.zero 32 = encodePoint 0 0 0 := by decide
  rw [hzero, padded_decompress_encode (by norm_num) (by norm_num) (by norm_num), Nat.cast_zero]
  rfl

/-- The coin of serial one and value ten. -/
theorem padded_decompress_coin : paddedPrimitives.decompress (twiceCoin 1) =
    some (coinPoint paddedPrimitives (1 : ℕ) (10 : ℕ) 0) := by
  rw [twiceCoin, padded_decompress_encode (by norm_num) (by norm_num) (by norm_num),
    padded_coinPoint, Nat.cast_zero]

/-- The coin is deposited and withdrawn. -/
def coveredRun : List (Extrinsic (U8Array 32) paddedConfig.maxRangeProofSize) :=
  [.signed twiceDepositor (.depositCoin (twiceCoin 1) 10 []),
    .unsigned (.withdrawCoin (twiceWithdrawal 1).encode [])]

theorem coveredRun_succeeds : ∃ s : State (U8Array 32 → ℕ),
    history (apply paddedConfig) (genesis twiceLedger) coveredRun =
      [(genesis twiceLedger, .signed twiceDepositor (.depositCoin (twiceCoin 1) 10 [])),
        (s, .unsigned (.withdrawCoin (twiceWithdrawal 1).encode []))] := by
  have hone : Scalar.fromBytesModOrder (U8Array.ofNat 32 1) = ((1 : ℕ) : Scalar) := by
    rw [Scalar.fromBytesModOrder, U8Array.toNat_ofNat (by norm_num)]
  have hopen : DepositOpenRelation paddedPrimitives (twiceCoin 1) 10 :=
    ⟨_, padded_decompress_coin, ((1 : ℕ) : Scalar), 0, by
      rw [coinPoint, Scalar.ofU64]
      change _ + ((10 : ℕ) : Scalar) • _ + _ - ((10 : ℕ) : Scalar) • _ = _
      module⟩
  have hspend : SpendsCoin paddedPrimitives (twiceCoin 1) (twiceWithdrawal 1).serial
      (twiceWithdrawal 1).amount (U8Array.zero 32) :=
    ⟨_, 0, padded_decompress_coin, padded_decompress_zero, 0, by
      rw [coinPoint, spendOffset, Scalar.ofU64]
      change _ - (Scalar.fromBytesModOrder (U8Array.ofNat 32 1) • _ +
        ((10 : ℕ) : Scalar) • _ + 0) = _
      rw [hone]
      module⟩
  have hdeposit : (10 : UInt64).toNat ≤ twiceLedger twiceDepositor := by decide
  have hroom : ((genesis twiceLedger).coinGroup 0).val.length < 1024 := by decide
  let paid : State (U8Array 32 → ℕ) :=
    { genesis twiceLedger with
      ledger := moveBalance twiceLedger twiceDepositor paddedConfig.poolAccount 10 }
  obtain ⟨s, hreg, hledger, hserials, -, hgroup, hcoins, -⟩ :=
    @registerCoin_ok _ paid 0 rfl hroom (twiceCoin 1)
  have h₁ : apply paddedConfig (genesis twiceLedger)
      (.signed twiceDepositor (.depositCoin (twiceCoin 1) 10 [])) = .ok s :=
    apply_eq_ok.2 ⟨fun _ h => (by cases h), depositCoin_eq_ok.2 ⟨_, rfl, rfl,
      (relationVerifier_verifyDepositOpen _).2 hopen, _,
      balances_transfer_of_le hdeposit _ _, hreg⟩⟩
  have hmem : twiceCoin 1 ∈ (s.coinGroup 0).val := by
    rw [hcoins]
    exact List.mem_append_right _ (List.mem_singleton_self _)
  have hunused : s.serialUsed (twiceWithdrawal 1).serial = false := by
    rw [hserials]
    rfl
  have hne : twiceDepositor ≠ paddedConfig.poolAccount := by
    simp only [paddedConfig, vectorConfig, twiceDepositor]
    decide
  have hpool : (10 : UInt64).toNat ≤ s.ledger paddedConfig.poolAccount := by
    have hpaid : paid.ledger paddedConfig.poolAccount =
        twiceLedger paddedConfig.poolAccount + 10 := moveBalance_dest hne 10
    rw [hledger, hpaid]
    exact Nat.le_add_left 10 _
  have hproof : (relationVerifier paddedPrimitives).verifyOneOfMany []
      (padGroup paddedPrimitives (s.coinGroup 0).val 0) (twiceWithdrawal 1).serial
      (twiceWithdrawal 1).amount (U8Array.zero 32) (paddedConfig.blake2_256
        (twiceWithdrawal 1).encode).toList = true :=
    (relationVerifier_verifyOneOfMany _).2 ⟨_, List.mem_append_left _ hmem, hspend⟩
  have hvalid : ∃ v, validateUnsigned paddedConfig s
      (.withdrawCoin (twiceWithdrawal 1).encode []) = .ok v := by
    have hgroup' : (s.coinGroups (twiceWithdrawal 1).groupId).isSome := hgroup
    simp [validateUnsigned, validateCoinWithdraw, validateCoin, hunused, hgroup']
  obtain ⟨s', h₂⟩ : ∃ s', apply paddedConfig s
      (.unsigned (.withdrawCoin (twiceWithdrawal 1).encode [])) = .ok s' :=
    ⟨_, unsigned_eq_ok.2 ⟨hvalid, withdrawCoin_eq_ok.2 ⟨rfl, _, CoinWithdrawPublic.decode_encode _,
      hunused, hgroup, hproof, twiceDepositor, rfl, _, balances_transfer_of_le hpool _ _, rfl⟩⟩⟩
  refine ⟨s, ?_⟩
  rw [coveredRun, history_cons_ok h₁, history_cons_ok h₂, history_nil]

theorem coveredRun_covered : ∃ s : State (U8Array 32 → ℕ),
    history (apply paddedConfig) (genesis twiceLedger) coveredRun =
      [(genesis twiceLedger, .signed twiceDepositor (.depositCoin (twiceCoin 1) 10 [])),
        (s, .unsigned (.withdrawCoin (twiceWithdrawal 1).encode []))] ∧
      twiceLedger paddedConfig.poolAccount +
            total (fun s c => c.coinPaidForRwa s)
              (history (apply paddedConfig) (genesis twiceLedger) coveredRun) +
            liveValue paddedPrimitives
              (run (apply paddedConfig) (genesis twiceLedger) coveredRun).serialUsed
              (registeredCoins (history (apply paddedConfig) (genesis twiceLedger) coveredRun)) ≤
          (run (apply paddedConfig) (genesis twiceLedger) coveredRun).ledger
              paddedConfig.poolAccount +
            total (fun s c => c.notePaidOut s)
              (history (apply paddedConfig) (genesis twiceLedger) coveredRun) := by
  obtain ⟨s, hrun⟩ := coveredRun_succeeds
  refine ⟨s, hrun, coin_pool_solvent padded_independent padded_decompress_zero padded_padsUnopened
    paddedConfig padded_proofsSound rfl balances_moves twiceLedger coveredRun ?_ ?_⟩
  · rw [hrun]
    intro e he
    simp only [List.mem_cons, List.not_mem_nil, or_false] at he
    rcases he with rfl | rfl
    · have hne : twiceDepositor ≠ U8Array.ofNat 32 1 := by decide
      exact fun h => hne (Origin.signed.inj h)
    · exact nofun
  · rw [hrun]
    intro e he
    simp only [List.mem_cons, List.not_mem_nil, or_false] at he
    rcases he with rfl | rfl
    · exact ⟨nofun, nofun⟩
    · refine ⟨fun k hk => ?_, nofun⟩
      have hserial : k = U8Array.ofNat 32 1 := by
        simpa [Extrinsic.call, Call.serials, twiceWithdrawal] using hk
      rw [hserial, Scalar.Canonical, U8Array.toNat_ofNat (by norm_num)]
      norm_num [groupOrder]

end Example

end NullaRelay.ScanProof
