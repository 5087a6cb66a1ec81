import NullaRelay.ScanProof.Marks
import NullaRelay.ScanProof.VectorModel
import NullaRelay.Foundations.Transition

/-!
# The coin lane

A coin is withdrawn by revealing its serial. The pallet marks the 32 bytes of
the serial, the proof speaks about the scalar they reduce to. Serials below the
group order are read as themselves, and as long as all withdrawals use such
serials no coin is withdrawn twice; a serial and the same serial plus the group
order are different keys for one coin, and both withdraw it.

A purchase moves the difference to a change coin. Over the basis `G1`, `G`, `H`
the change point may hide a serial or a negative value; the spent coin has the
revealed serial and covers the price exactly when it does neither.
-/

namespace NullaRelay.ScanProof

open Verifier OneOfMany NullaRelay.Frame Transition

variable {V : Type} [AddCommGroup V] [Module Scalar V]
variable {A L : Type} {T : Config A L}

/-- A withdrawal whose serial opens the coin. -/
def WithdrawsWith (P : Primitives V) {R : ℕ} (x : Extrinsic A R) (coin : U8Array 32) : Prop :=
  ∃ publicInputs proof inputs, x.call = .withdrawCoin publicInputs proof ∧
    CoinWithdrawPublic.decode publicInputs = some inputs ∧ SerialOpens P coin inputs.serial

/-- The coin that a call deposits. -/
def depositedCoin {R : ℕ} : Call R → Option (U8Array 32)
  | .depositCoin coin _ _ => some coin
  | _ => none

/-- Of the calls that succeeded, no two withdrawals open one deposited coin. -/
def NoDoubleWithdrawal (P : Primitives V) {R : ℕ}
    (hist : List (State L × Extrinsic A R)) : Prop :=
  ∀ coin ∈ hist.filterMap fun e => depositedCoin e.2.call,
    hist.Pairwise fun e e' => ¬ (WithdrawsWith P e.2 coin ∧ WithdrawsWith P e'.2 coin)

/-- The serial of a withdrawal is the canonical encoding of its scalar. -/
def CanonicalWithdrawal {R : ℕ} (x : Extrinsic A R) : Prop :=
  ∀ publicInputs proof inputs, x.call = .withdrawCoin publicInputs proof →
    CoinWithdrawPublic.decode publicInputs = some inputs → Scalar.Canonical inputs.serial

theorem serials_nodup {R : ℕ} (c : Call R) : c.serials.Nodup := by
  unfold Call.serials
  split <;> first
    | exact List.nodup_nil
    | (cases Option.map _ _ <;> simp)

/-- Serials are one-time keys of the pallet. -/
theorem serial_keyGuard (T : Config A L) :
    KeyGuard (apply T) (fun _ _ => True) (fun _ x => x.call.serials)
      (fun s k => s.serialUsed k = true) where
  nodup _ x _ _ _ := serials_nodup x.call
  fresh s x s' _ h k hk := by simp [(apply_marks h).serial_fresh k hk]
  marked s x s' _ h k hk := by
    rw [(apply_marks h).serialUsed, markAll_eq_true]
    exact Or.inr hk
  kept s x s' k h hk := by
    rw [(apply_marks h).serialUsed, markAll_eq_true]
    exact Or.inl hk

theorem WithdrawsWith.mem_serials {P : Primitives V} {R : ℕ} {x : Extrinsic A R}
    {coin : U8Array 32} (h : WithdrawsWith P x coin) :
    ∃ serial ∈ x.call.serials, SerialOpens P coin serial ∧
      (CanonicalWithdrawal x → Scalar.Canonical serial) := by
  obtain ⟨pi, proof, inputs, hcall, hdec, hopen⟩ := h
  refine ⟨inputs.serial, ?_, hopen, fun hcanon => hcanon pi proof inputs hcall hdec⟩
  simp [hcall, Call.serials, hdec]

/-- In every run whose withdrawals use canonical serials no deposited coin is
withdrawn twice. -/
theorem no_double_withdrawal_of_canonical (P : Primitives V)
    (hind : LinearIndependent Scalar ![generatorG1 P, P.basepoint, generatorH P])
    (T : Config A L) (s : State L) (xs : List (Extrinsic A T.maxRangeProofSize))
    (hcanon : ∀ e ∈ history (apply T) s xs, CanonicalWithdrawal e.2) :
    NoDoubleWithdrawal P (history (apply T) s xs) := by
  intro coin _
  have hnodup := (serial_keyGuard T).nodup_history s xs fun _ _ => trivial
  refine (List.nodup_flatMap.1 hnodup).2.imp_of_mem ?_
  rintro e e' he he' hdisj ⟨hw, hw'⟩
  obtain ⟨k, hk, hopen, hc⟩ := hw.mem_serials
  obtain ⟨k', hk', hopen', hc'⟩ := hw'.mem_serials
  have hkk : k = k' := Scalar.fromBytesModOrder_inj (hc (hcanon e he)) (hc' (hcanon e' he'))
    (hopen.scalar_eq hind hopen')
  exact hdisj hk (hkk ▸ hk')

/-! A run that withdraws one coin twice: two coins of value ten are deposited,
and the first one, of serial one, is withdrawn as serial one and as serial one
plus the group order. -/

def twiceDepositor : U8Array 32 := U8Array.ofNat 32 2

def twiceLedger (account : U8Array 32) : ℕ := if account = twiceDepositor then 20 else 0

def twiceCoin (serial : ℕ) : U8Array 32 := encodePoint serial 10 0

def twiceWithdrawal (serial : ℕ) : CoinWithdrawPublic where
  groupId := 0
  serial := U8Array.ofNat 32 serial
  amount := 10
  destination := twiceDepositor
  txId := U8Array.zero 16

/-- Both coins are deposited, and the first one is withdrawn as serial one; `k` is
the serial of a second withdrawal. -/
def withdrawalRun (k : ℕ) : List (Extrinsic (U8Array 32) vectorConfig.maxRangeProofSize) :=
  [.signed twiceDepositor (.depositCoin (twiceCoin 1) 10 []),
    .signed twiceDepositor (.depositCoin (twiceCoin 2) 10 []),
    .unsigned (.withdrawCoin (twiceWithdrawal 1).encode []),
    .unsigned (.withdrawCoin (twiceWithdrawal k).encode [])]

def twiceRun : List (Extrinsic (U8Array 32) vectorConfig.maxRangeProofSize) :=
  withdrawalRun (1 + groupOrder)

/-- A coin joins an open group that has room. -/
theorem registerCoin_ok {s : State L} {gid : UInt32} (hgid : openGroup s = gid)
    (hroom : (s.coinGroup gid).val.length < 1024) (coin : U8Array 32) :
    ∃ s', registerCoin s coin = .ok s' ∧ s'.ledger = s.ledger ∧
      s'.serialUsed = s.serialUsed ∧ s'.currentGroup = gid ∧ (s'.coinGroups gid).isSome ∧
      (s'.coinGroup gid).val = (s.coinGroup gid).val ++ [coin] ∧
      ∀ c ≠ coin, s'.coinLocation c = s.coinLocation c := by
  subst hgid
  refine ⟨_, registerCoin_eq_ok.2 ⟨_, BoundedVec.tryPush_of_lt hroom coin, rfl⟩, rfl, rfl, rfl,
    ?_, ?_, fun c hc => ?_⟩
  · simp
  · simp [State.coinGroup]
  · simp [hc]

/-- A deposit into the first group, with room and a sufficient balance. -/
theorem vector_depositCoin_ok {s : State (U8Array 32 → ℕ)} {who coin : U8Array 32}
    {amount : UInt64} (hloc : s.coinLocation coin = none)
    (hopen : DepositOpenRelation vectorPrimitives coin amount)
    (hbal : amount.toNat ≤ s.ledger who) (hcur : s.currentGroup = 0)
    (hroom : (s.coinGroup 0).val.length < 1024) :
    ∃ s', apply vectorConfig s (.signed who (.depositCoin coin amount [])) = .ok s' ∧
      s'.ledger = moveBalance s.ledger who vectorConfig.poolAccount amount.toNat ∧
      s'.serialUsed = s.serialUsed ∧ s'.currentGroup = 0 ∧
      (s'.coinGroups 0).isSome ∧ (s'.coinGroup 0).val = (s.coinGroup 0).val ++ [coin] ∧
      ∀ c ≠ coin, s'.coinLocation c = s.coinLocation c := by
  let paid : State (U8Array 32 → ℕ) :=
    { s with ledger := moveBalance s.ledger who vectorConfig.poolAccount amount.toNat }
  have hgid : openGroup paid = 0 := by
    rw [openGroup]
    exact (if_neg (by rw [hcur]; exact Nat.not_le.2 hroom)).trans hcur
  obtain ⟨s', hreg, hrest⟩ := registerCoin_ok hgid hroom coin
  refine ⟨s', apply_eq_ok.2 ⟨by simp, depositCoin_eq_ok.2 ⟨who, rfl, hloc, ?_, _,
    balances_transfer_of_le hbal _ _, hreg⟩⟩, hrest⟩
  exact (relationVerifier_verifyDepositOpen _).2 hopen

/-- A withdrawal of a coin of the group, covered by the pool. -/
theorem vector_withdrawCoin_ok {s : State (U8Array 32 → ℕ)} {inputs : CoinWithdrawPublic}
    {coin : U8Array 32} (hserial : s.serialUsed inputs.serial = false)
    (hgroup : (s.coinGroups inputs.groupId).isSome)
    (hmem : coin ∈ (s.coinGroup inputs.groupId).val)
    (hspend : SpendsCoin vectorPrimitives coin inputs.serial inputs.amount (U8Array.zero 32))
    (hbal : inputs.amount.toNat ≤ s.ledger vectorConfig.poolAccount) :
    ∃ s', apply vectorConfig s (.unsigned (.withdrawCoin inputs.encode [])) = .ok s' ∧
      s'.ledger = moveBalance s.ledger vectorConfig.poolAccount inputs.destination
        inputs.amount.toNat ∧
      s'.serialUsed = insertAt s.serialUsed inputs.serial true ∧
      s'.coinGroups = s.coinGroups := by
  have hdest : vectorConfig.decodeAccount inputs.destination.toList = some inputs.destination := by
    have htake : inputs.destination.toList.take 32 = inputs.destination.toList :=
      List.take_of_length_le (by simp)
    exact copyFromSlice_eq_some.2 htake
  have hverify : vectorConfig.proofVerifier.verifyOneOfMany []
      (vectorConfig.proofVerifier.padGroup (s.coinGroup inputs.groupId).val inputs.groupId)
      inputs.serial inputs.amount (U8Array.zero 32)
      (vectorConfig.blake2_256 inputs.encode).toList = true := by
    have hin : coin ∈ padGroup vectorPrimitives (s.coinGroup inputs.groupId).val
        inputs.groupId := by
      simp [padGroup, hmem]
    exact (relationVerifier_verifyOneOfMany _).2 ⟨coin, hin, hspend⟩
  have hvalid : ∃ v, validateUnsigned vectorConfig s (.withdrawCoin inputs.encode []) = .ok v := by
    simp [validateUnsigned, validateCoinWithdraw, validateCoin, hserial, hgroup]
  refine ⟨_, apply_eq_ok.2 ⟨?_, withdrawCoin_eq_ok.2 ⟨rfl, inputs, by simp, hserial,
    hgroup, hverify, inputs.destination, hdest, _, balances_transfer_of_le hbal _ _,
    rfl⟩⟩, rfl, rfl, rfl⟩
  rintro c ⟨⟩
  exact hvalid

theorem twiceCoin_decode {serial : ℕ} (h : serial < 256 ^ 10) :
    decodePoint (twiceCoin serial) = ((serial : Scalar), 10, 0) := by
  have hcoin := decodePoint_encodePoint (s := serial) (v := 10) (r := 0) h (by norm_num)
    (by norm_num)
  simpa [twiceCoin] using hcoin

theorem twiceCoin_deposit {serial : ℕ} (h : serial < 256 ^ 10) :
    DepositOpenRelation vectorPrimitives (twiceCoin serial) 10 := by
  refine ⟨((serial : Scalar), 10, 0), by simp [twiceCoin_decode h], serial, 0, ?_⟩
  simp [Scalar.ofU64]
  rfl

/-- The coin of a serial is opened by all bytes that reduce to the serial. -/
theorem twiceCoin_spends {serial k : ℕ} (h : serial < 256 ^ 10) (hk : k < 256 ^ 32)
    (heq : (k : Scalar) = serial) :
    SpendsCoin vectorPrimitives (twiceCoin serial) (twiceWithdrawal k).serial
      (twiceWithdrawal k).amount (U8Array.zero 32) := by
  refine ⟨((serial : Scalar), 10, 0), 0, by simp [twiceCoin_decode h], by simp [decodePoint_zero],
    0, ?_⟩
  have hbytes : Scalar.fromBytesModOrder (U8Array.ofNat 32 k) = serial := by
    rw [Scalar.fromBytesModOrder, U8Array.toNat_ofNat hk, heq]
  simp [spendOffset, hbytes, twiceWithdrawal, Scalar.ofU64]

theorem twiceCoin_serialOpens {serial k : ℕ} (h : serial < 256 ^ 10) (hk : k < 256 ^ 32)
    (heq : (k : Scalar) = serial) :
    SerialOpens vectorPrimitives (twiceCoin serial) (twiceWithdrawal k).serial :=
  serialOpens_of_spendsCoin (congrArg some decodePoint_zero) (twiceCoin_spends h hk heq)

theorem twice_withdrawsWith {R k : ℕ} (hk : k < 256 ^ 32) (heq : (k : Scalar) = (1 : ℕ)) :
    WithdrawsWith vectorPrimitives
      (.unsigned (.withdrawCoin (twiceWithdrawal k).encode []) : Extrinsic (U8Array 32) R)
      (twiceCoin 1) :=
  ⟨_, _, twiceWithdrawal k, rfl, CoinWithdrawPublic.decode_encode _,
    twiceCoin_serialOpens (by norm_num) hk heq⟩

/-- Both coins are in the first group, and the pool owns `amount`. -/
structure TwiceStocked (s : State (U8Array 32 → ℕ)) (amount : ℕ) : Prop where
  group : (s.coinGroups 0).isSome
  coins : ∀ n ∈ [1, 2], twiceCoin n ∈ (s.coinGroup 0).val
  pool : s.ledger vectorConfig.poolAccount = amount

theorem twiceDepositor_ne_pool : twiceDepositor ≠ vectorConfig.poolAccount := by
  simp only [vectorConfig, twiceDepositor]
  decide

theorem twiceDeposits_succeed : ∃ s₁ s₂ : State (U8Array 32 → ℕ),
    apply vectorConfig (genesis twiceLedger)
        (.signed twiceDepositor (.depositCoin (twiceCoin 1) 10 [])) = .ok s₁ ∧
      apply vectorConfig s₁ (.signed twiceDepositor (.depositCoin (twiceCoin 2) 10 [])) =
        .ok s₂ ∧
      TwiceStocked s₂ 20 ∧ ∀ k, s₂.serialUsed k = false := by
  have hpool := twiceDepositor_ne_pool
  have hcoins : twiceCoin 2 ≠ twiceCoin 1 := by decide
  obtain ⟨s₁, h₁, hl₁, hs₁, hc₁, hg₁, hm₁, hloc₁⟩ := @vector_depositCoin_ok
    (genesis twiceLedger) twiceDepositor (twiceCoin 1) 10 rfl (twiceCoin_deposit (by norm_num))
    (by simp [genesis, twiceLedger]) rfl (by decide)
  obtain ⟨s₂, h₂, hl₂, hs₂, hc₂, hg₂, hm₂, hloc₂⟩ := @vector_depositCoin_ok
    s₁ twiceDepositor (twiceCoin 2) 10 (hloc₁ _ hcoins) (twiceCoin_deposit (by norm_num))
    (by rw [hl₁, moveBalance_source hpool]; simp [genesis, twiceLedger]) hc₁
    (by rw [hm₁]; decide)
  refine ⟨s₁, s₂, h₁, h₂, ⟨hg₂, ?_, ?_⟩, fun k => ?_⟩
  · simp [hm₂, hm₁]
  · rw [hl₂, moveBalance_dest hpool, hl₁, moveBalance_dest hpool]
    simp [genesis, twiceLedger, hpool.symm]
  · rw [hs₂, hs₁]
    rfl

/-- A withdrawal of one of the coins, by fresh bytes that reduce to its serial. -/
theorem TwiceStocked.withdraw {s : State (U8Array 32 → ℕ)} {amount n k : ℕ}
    (h : TwiceStocked s (amount + 10)) (hn : n ∈ [1, 2]) (hk : k < 256 ^ 32)
    (heq : (k : Scalar) = n) (hfresh : s.serialUsed (U8Array.ofNat 32 k) = false) :
    ∃ s', apply vectorConfig s (.unsigned (.withdrawCoin (twiceWithdrawal k).encode [])) =
        .ok s' ∧
      TwiceStocked s' amount ∧
      s'.serialUsed = insertAt s.serialUsed (U8Array.ofNat 32 k) true := by
  have hlt : n < 256 ^ 10 := by
    obtain rfl | rfl := List.mem_pair.1 hn <;> norm_num
  have hten : (twiceWithdrawal k).amount.toNat = 10 := rfl
  obtain ⟨s', hs', hledger, hserial, hgroups⟩ := @vector_withdrawCoin_ok s (twiceWithdrawal k)
    (twiceCoin n) hfresh h.group (h.coins n hn) (twiceCoin_spends hlt hk heq)
    (by rw [h.pool, hten]; exact Nat.le_add_left 10 amount)
  refine ⟨s', hs', ⟨by rw [hgroups]; exact h.group, fun m hm => ?_, ?_⟩, hserial⟩
  · rw [State.coinGroup, hgroups]
    exact h.coins m hm
  · have hdest : vectorConfig.poolAccount ≠ (twiceWithdrawal k).destination :=
      twiceDepositor_ne_pool.symm
    rw [hledger, moveBalance_source hdest, h.pool, hten, Nat.add_sub_cancel]

/-- All four calls succeed when the last serial is other bytes for one of the two
coins. -/
theorem withdrawalRun_succeeds {n k : ℕ} (hn : n ∈ [1, 2]) (hk : k < 256 ^ 32)
    (heq : (k : Scalar) = n) (hne : k ≠ 1) : ∃ s₁ s₂ s₃ : State (U8Array 32 → ℕ),
    history (apply vectorConfig) (genesis twiceLedger) (withdrawalRun k) =
      [(genesis twiceLedger, .signed twiceDepositor (.depositCoin (twiceCoin 1) 10 [])),
        (s₁, .signed twiceDepositor (.depositCoin (twiceCoin 2) 10 [])),
        (s₂, .unsigned (.withdrawCoin (twiceWithdrawal 1).encode [])),
        (s₃, .unsigned (.withdrawCoin (twiceWithdrawal k).encode []))] := by
  have hserials : U8Array.ofNat 32 k ≠ U8Array.ofNat 32 1 := fun h => by
    have hnat := congrArg U8Array.toNat h
    rw [U8Array.toNat_ofNat hk, U8Array.toNat_ofNat (by norm_num)] at hnat
    exact hne hnat
  obtain ⟨s₁, s₂, h₁, h₂, hstock₂, hserial₂⟩ := twiceDeposits_succeed
  obtain ⟨s₃, h₃, hstock₃, hserial₃⟩ :=
    hstock₂.withdraw (n := 1) (by simp) (by norm_num) rfl (hserial₂ _)
  obtain ⟨s₄, h₄, -, -⟩ := hstock₃.withdraw hn hk heq
    (by simp [hserial₃, hserials, hserial₂])
  refine ⟨s₁, s₂, s₃, ?_⟩
  rw [withdrawalRun, history_cons_ok h₁, history_cons_ok h₂, history_cons_ok h₃,
    history_cons_ok h₄, history_nil]

/-- Two encodings of one serial scalar withdraw one coin twice. -/
theorem coin_withdrawn_twice :
    OneOfManySound vectorPrimitives vectorConfig.proofVerifier ∧
      ¬ NoDoubleWithdrawal vectorPrimitives
        (history (apply vectorConfig) (genesis twiceLedger) twiceRun) := by
  refine ⟨relationVerifier_oneOfManySound _, fun h => ?_⟩
  obtain ⟨s₁, s₂, s₃, hrun⟩ := withdrawalRun_succeeds (n := 1) (k := 1 + groupOrder) (by simp)
    (by norm_num [groupOrder]) (by simp) (by norm_num [groupOrder])
  rw [twiceRun, hrun] at h
  have hpair := h (twiceCoin 1) (by simp [depositedCoin, Extrinsic.call])
  simp only [List.pairwise_cons, List.forall_mem_cons] at hpair
  exact hpair.2.2.1.1 ⟨twice_withdrawsWith (by norm_num) rfl,
    twice_withdrawsWith (by norm_num [groupOrder]) (by simp)⟩

theorem canonicalWithdrawal_twice {R k : ℕ} (hk : k < groupOrder) :
    CanonicalWithdrawal
      (.unsigned (.withdrawCoin (twiceWithdrawal k).encode []) : Extrinsic (U8Array 32) R) := by
  intro pi proof inputs hcall hdec
  obtain ⟨rfl, rfl⟩ : (twiceWithdrawal k).encode = pi ∧ [] = proof := by
    simpa [Extrinsic.call] using hcall
  obtain rfl : twiceWithdrawal k = inputs := by
    simpa using (CoinWithdrawPublic.decode_encode (twiceWithdrawal k)).symm.trans hdec
  have hlt : k < 256 ^ 32 := hk.trans (by norm_num [groupOrder])
  rw [Scalar.Canonical, twiceWithdrawal, U8Array.toNat_ofNat hlt]
  exact hk

/-- Both coins are withdrawn, each under its own serial. -/
theorem withdrawalRun_not_doubled :
    (history (apply vectorConfig) (genesis twiceLedger) (withdrawalRun 2)).length = 4 ∧
      NoDoubleWithdrawal vectorPrimitives
        (history (apply vectorConfig) (genesis twiceLedger) (withdrawalRun 2)) := by
  obtain ⟨s₁, s₂, s₃, hrun⟩ := withdrawalRun_succeeds (n := 2) (k := 2) (by simp) (by norm_num)
    rfl (by norm_num)
  refine ⟨by rw [hrun]; rfl, no_double_withdrawal_of_canonical vectorPrimitives
    vector_independent vectorConfig (genesis twiceLedger) (withdrawalRun 2) fun e he => ?_⟩
  have hmem := mem_of_mem_history he
  simp only [withdrawalRun, List.mem_cons, List.not_mem_nil, or_false] at hmem
  rcases hmem with h | h | h | h
  · simp [h, CanonicalWithdrawal, Extrinsic.call]
  · simp [h, CanonicalWithdrawal, Extrinsic.call]
  · rw [h]
    exact canonicalWithdrawal_twice (by norm_num [groupOrder])
  · rw [h]
    exact canonicalWithdrawal_twice (by norm_num [groupOrder])

/-! Purchases with change, in coordinates. -/

/-- The coordinates are those of the basis `G1`, `G`, `H`. -/
structure IsVectorModel (P : Primitives Point) : Prop where
  generatorG1 : generatorG1 P = (1, 0, 0)
  basepoint : P.basepoint = (0, 1, 0)
  generatorH : generatorH P = (0, 0, 1)

theorem vectorPrimitives_isVectorModel : IsVectorModel vectorPrimitives :=
  ⟨vector_generatorG1, vector_basepoint, vector_generatorH⟩

/-- Every coin of the group has a value below `2 ^ 64`. -/
def OpenedGroup (P : Primitives Point) (coins : List (U8Array 32)) : Prop :=
  ∀ coin ∈ coins, ∃ (s : Scalar) (v : ℕ) (r : Scalar),
    v < 2 ^ 64 ∧ P.decompress coin = some (s, (v : Scalar), r)

/-- The coin has the revealed serial, its value covers the price, and the change
coin has the difference as its value. -/
def ConservedBy (P : Primitives Point) (coin serial : U8Array 32) (price : UInt64)
    (changeCoin : U8Array 32) : Prop :=
  ∃ (s : Scalar) (v : ℕ) (r : Scalar),
    v < 2 ^ 64 ∧ P.decompress coin = some (s, (v : Scalar), r) ∧
      s = Scalar.fromBytesModOrder serial ∧ price.toNat ≤ v ∧
      ∃ s' r' : Scalar, P.decompress changeCoin =
        some (s', ((v - price.toNat : ℕ) : Scalar), r')

/-- A spent coin is the revealed serial and the price plus the change, along
`G1` and `G`. -/
theorem SpendsCoin_coordinates {P : Primitives Point} (hP : IsVectorModel P)
    {coin serial change : U8Array 32} {price : UInt64} {s r a b c : Scalar} {v : ℕ}
    (hcoin : P.decompress coin = some (s, (v : Scalar), r))
    (hchange : P.decompress change = some (a, b, c)) :
    SpendsCoin P coin serial price change ↔
      s = Scalar.fromBytesModOrder serial + a ∧ (v : Scalar) = Scalar.ofU64 price + b := by
  have hoff : spendOffset P serial price (a, b, c) =
      (Scalar.fromBytesModOrder serial + a, Scalar.ofU64 price + b, c) := by
    simp [spendOffset, hP.generatorG1, hP.basepoint]
  constructor
  · rintro ⟨p, ch, hp, hch, t, ht⟩
    obtain rfl : (s, (v : Scalar), r) = p := Option.some_injective _ (hcoin.symm.trans hp)
    obtain rfl : (a, b, c) = ch := Option.some_injective _ (hchange.symm.trans hch)
    rw [hoff, hP.generatorH] at ht
    simp only [Prod.mk_sub_mk, Prod.smul_mk, smul_eq_mul, mul_zero, mul_one,
      Prod.mk.injEq] at ht
    exact ⟨sub_eq_zero.1 ht.1, sub_eq_zero.1 ht.2.1⟩
  · rintro ⟨hs, hv⟩
    refine ⟨_, _, hcoin, hchange, r - c, ?_⟩
    simp [hoff, hP.generatorH, hs, hv]

/-- The spent coin of a purchase has the revealed serial, covers the price and
leaves the difference in the change coin, exactly when the change point has no
serial component and a value component that does not wrap around. -/
theorem purchase_conserves_iff {P : Primitives Point} (hP : IsVectorModel P)
    {coins : List (U8Array 32)} (hcoins : OpenedGroup P coins) {serial : U8Array 32}
    {price : UInt64} {change changeCoin : U8Array 32} {a b c : Scalar}
    (hchange : P.decompress change = some (a, b, c))
    (hspend : OneOfManyRelation P coins serial price change)
    (hpok : G1PokRelation P changeCoin change) :
    (∃ coin ∈ coins, SpendsCoin P coin serial price change ∧
        ConservedBy P coin serial price changeCoin) ↔
      a = 0 ∧ price.toNat ≤ (Scalar.ofU64 price + b).val := by
  have hval : ∀ v : ℕ, v < 2 ^ 64 → (v : Scalar) = Scalar.ofU64 price + b →
      (Scalar.ofU64 price + b).val = v := by
    intro v hv hvb
    rw [← hvb]
    exact ZMod.val_cast_of_lt (lt_of_lt_of_le hv (by norm_num [groupOrder]))
  constructor
  · rintro ⟨coin, -, hsc, s, v, r, hv, hcoin, hs, hle, -⟩
    obtain ⟨hsa, hvb⟩ := (SpendsCoin_coordinates hP hcoin hchange).1 hsc
    refine ⟨?_, by rwa [hval v hv hvb]⟩
    rw [hs] at hsa
    simpa using hsa.symm
  · rintro ⟨rfl, hle⟩
    obtain ⟨coin, hmem, hsc⟩ := hspend.exists_coin
    obtain ⟨s, v, r, hv, hcoin⟩ := hcoins coin hmem
    obtain ⟨hsa, hvb⟩ := (SpendsCoin_coordinates hP hcoin hchange).1 hsc
    rw [hval v hv hvb] at hle
    obtain ⟨nc, ch, hnc, hch, s', hs'⟩ := hpok
    obtain rfl : (0, b, c) = ch := Option.some_injective _ (hchange.symm.trans hch)
    have hdiff : ((v - price.toNat : ℕ) : Scalar) = b := by
      rw [Nat.cast_sub hle, hvb, Scalar.ofU64]
      ring
    refine ⟨coin, hmem, hsc, s, v, r, hv, hcoin, by simpa using hsa, hle, s', c, ?_⟩
    rw [hnc, hdiff, sub_eq_iff_eq_add.1 hs', hP.generatorG1]
    simp

/-- A group of two coins of the given serial and of serial nine, with values ten
and four. -/
def pairOfCoins (serial : ℕ) : List (U8Array 32) := [encodePoint serial 10 0, encodePoint 9 4 0]

theorem pairOfCoins_decode (serial : ℕ) (h : serial < 256 ^ 10) :
    decodePoint (encodePoint serial 10 0) = ((serial : Scalar), ((10 : ℕ) : Scalar), 0) ∧
      decodePoint (encodePoint 9 4 0) = (((9 : ℕ) : Scalar), ((4 : ℕ) : Scalar), 0) := by
  refine ⟨?_, ?_⟩
  · simpa using decodePoint_encodePoint (v := 10) (r := 0) h (by norm_num) (by norm_num)
  · simpa using decodePoint_encodePoint (s := 9) (v := 4) (r := 0) (by norm_num) (by norm_num)
      (by norm_num)

theorem pairOfCoins_opened {serial : ℕ} (h : serial < 256 ^ 10) :
    OpenedGroup vectorPrimitives (pairOfCoins serial) := by
  obtain ⟨h₀, h₁⟩ := pairOfCoins_decode serial h
  intro coin hcoin
  rcases List.mem_pair.1 hcoin with rfl | rfl
  · exact ⟨serial, 10, 0, by norm_num, congrArg some h₀⟩
  · exact ⟨_, 4, 0, by norm_num, congrArg some h₁⟩

/-- The first coin of the pair is spent with serial one, price three and the
change `encodePoint a 7 0` when its own serial is `1 + a`. -/
theorem pairOfCoins_relation {a : ℕ} (h : a < 255) :
    OneOfManyRelation vectorPrimitives (pairOfCoins (1 + a)) (U8Array.ofNat 32 1) 3
      (encodePoint a 7 0) := by
  have hcoin := (pairOfCoins_decode (1 + a) (by omega)).1
  have hchange := decodePoint_encodePoint (s := a) (v := 7) (r := 0) (by omega) (by norm_num)
    (by norm_num)
  refine OneOfManyRelation.of_coin (fun _ _ => rfl) (List.mem_cons_self ..)
    ((SpendsCoin_coordinates vectorPrimitives_isVectorModel (congrArg some hcoin)
      (congrArg some hchange)).2 ⟨?_, ?_⟩)
  · rw [Scalar.fromBytesModOrder, U8Array.toNat_ofNat (by norm_num), Nat.cast_add]
  · have hten : (10 : ℕ) = (3 : UInt64).toNat + 7 := rfl
    rw [hten, Nat.cast_add, Scalar.ofU64]

/-- The change coin of serial five differs from the change in its serial only. -/
theorem changeCoin_relation {a : ℕ} (h : a < 255) :
    G1PokRelation vectorPrimitives (encodePoint 5 7 0) (encodePoint a 7 0) := by
  have hcoin := decodePoint_encodePoint (s := 5) (v := 7) (r := 0) (by norm_num) (by norm_num)
    (by norm_num)
  have hchange := decodePoint_encodePoint (s := a) (v := 7) (r := 0) (by omega) (by norm_num)
    (by norm_num)
  refine ⟨_, _, congrArg some hcoin, congrArg some hchange, ((5 : ℕ) : Scalar) - a, ?_⟩
  simp
  rfl

/-- A change point with a serial component hides which serial was spent: no coin
of the group has serial one. -/
theorem purchase_serial_absorbed :
    OpenedGroup vectorPrimitives (pairOfCoins 2) ∧
      OneOfManyRelation vectorPrimitives (pairOfCoins 2) (U8Array.ofNat 32 1) 3
        (encodePoint 1 7 0) ∧
      G1PokRelation vectorPrimitives (encodePoint 5 7 0) (encodePoint 1 7 0) ∧
      encodePoint 1 7 0 ≠ U8Array.zero 32 ∧ encodePoint 5 7 0 ≠ U8Array.zero 32 ∧
      ¬ ∃ coin ∈ pairOfCoins 2,
        ConservedBy vectorPrimitives coin (U8Array.ofNat 32 1) 3 (encodePoint 5 7 0) := by
  refine ⟨pairOfCoins_opened (by norm_num), pairOfCoins_relation (a := 1) (by norm_num),
    changeCoin_relation (by norm_num), by decide, by decide, ?_⟩
  rintro ⟨coin, hmem, s, v, r, -, hcoin, hs, -⟩
  have hone : Scalar.fromBytesModOrder (U8Array.ofNat 32 1) = ((1 : ℕ) : Scalar) := by
    rw [Scalar.fromBytesModOrder, U8Array.toNat_ofNat (by norm_num)]
  have hne : ∀ n : ℕ, n < groupOrder → n ≠ 1 → ((n : ℕ) : Scalar) ≠ ((1 : ℕ) : Scalar) :=
    fun n hn h1 h => h1 (Scalar.natCast_inj hn (by norm_num [groupOrder]) h)
  obtain ⟨h₀, h₁⟩ := pairOfCoins_decode 2 (by norm_num)
  rw [hone] at hs
  rcases List.mem_pair.1 hmem with rfl | rfl
  · rw [vector_decompress, h₀, hs] at hcoin
    exact hne 2 (by norm_num [groupOrder]) (by norm_num) (congrArg Prod.fst (Option.some.inj hcoin))
  · rw [vector_decompress, h₁, hs] at hcoin
    exact hne 9 (by norm_num [groupOrder]) (by norm_num) (congrArg Prod.fst (Option.some.inj hcoin))

/-- A plain change of seven from a coin of ten at price three is conserved. -/
theorem purchase_conserves_plain_change :
    (∃ coin ∈ pairOfCoins 1, SpendsCoin vectorPrimitives coin (U8Array.ofNat 32 1) 3
        (encodePoint 0 7 0) ∧
      ConservedBy vectorPrimitives coin (U8Array.ofNat 32 1) 3 (encodePoint 5 7 0)) ↔
      ((0 : ℕ) : Scalar) = 0 ∧
        (3 : UInt64).toNat ≤ (Scalar.ofU64 3 + ((7 : ℕ) : Scalar)).val :=
  purchase_conserves_iff vectorPrimitives_isVectorModel (pairOfCoins_opened (by norm_num))
    (congrArg some (decodePoint_encodePoint (by norm_num) (by norm_num) (by norm_num)))
    (pairOfCoins_relation (a := 0) (by norm_num)) (changeCoin_relation (by norm_num))

end NullaRelay.ScanProof
