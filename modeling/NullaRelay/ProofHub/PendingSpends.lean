import NullaRelay.ProofHub.TreeStorage
import NullaRelay.ProofHub.ValidateUnsigned

/-!
# Pending spends

A spend is proved against the root of the first leaves, and other calls come before it.
Its proof and its signature stay good while its root is one of the last and the terms of
its purchase are unchanged. What can still happen to it is what the pool has to watch:
its nullifier is used, its change leaf is inserted by somebody else, the tree fills up,
or the pool's account cannot pay.
-/

namespace NullaRelay.ProofHub

open NullaRelay.Frame V2 Transition

variable {hash2 : U8Array 32 → U8Array 32 → U8Array 32} {A L : Type} {T : Config A L}
  {s s' t : State L} {leaves : List (U8Array 32)}

/-- The root that a spend of the v2 lane is proved against. -/
def Call.spendRoot : Call → Option (U8Array 32)
  | .purchaseRwaV2 _ pi _ | .purchaseAccessV2 _ pi _ =>
      (SpendPublicV2.decode pi).map SpendPublicV2.merkleRoot
  | .withdrawV2 _ pi _ => (WithdrawPublicV2.decode pi).map WithdrawPublicV2.merkleRoot
  | _ => none

/-- The value that a spend is proved for, and the account that the pool pays it to. -/
structure SpendTerms where
  value : UInt64
  account : Option (U8Array 32)

/-- The terms of a spend of the v2 lane. -/
def Call.spendTerms (s : State L) : Call → Option SpendTerms
  | .purchaseRwaV2 _ pi _ => (SpendPublicV2.decode pi).map fun i =>
      { value := s.rwaPrices i.rwaId, account := none }
  | .purchaseAccessV2 _ pi _ => (SpendPublicV2.decode pi).bind fun i =>
      (s.accessKeyConfigs i.rwaId).map fun cfg =>
        { value := cfg.price, account := some cfg.paymentAccount }
  | .withdrawV2 _ pi _ => (WithdrawPublicV2.decode pi).map fun i =>
      { value := i.amount, account := some i.destination }
  | _ => none

variable (T) in
/-- The pool's account can pay the terms. -/
def PoolPays (s : State L) (terms : SpendTerms) : Prop :=
  ∀ account ∈ terms.account, ∃ dest ledger, T.decodeAccount account.toList = some dest ∧
    T.currency.transfer s.ledger T.poolAccount dest terms.value.toNat .allowDeath = some ledger

variable (T leaves) in
/-- Nothing has come in the way of a spend. -/
structure Undisturbed (s : State L) (c : Call) (terms : SpendTerms) : Prop where
  unused : ∀ nf ∈ (c.footprint s).nullifier, s.nullifierUsed nf = false
  room : ∀ leaf ∈ (c.footprint s).leaf, leaf ∉ leaves ∧ leaves.length < 2 ^ merkleDepth
  paid : PoolPays T s terms

theorem payFromPool_isSome_iff {account : U8Array 32} {price : UInt64} :
    (∃ s', payFromPool T s account.toList price = .ok s') ↔
      PoolPays T s { value := price, account := some account } := by
  simp only [PoolPays, payFromPool_eq_ok, Option.mem_some_iff, forall_eq']
  constructor
  · rintro ⟨_, dest, hdest, ledger, hpay, -⟩
    exact ⟨dest, ledger, hdest, hpay⟩
  · rintro ⟨dest, ledger, hdest, hpay⟩
    exact ⟨_, dest, hdest, ledger, hpay, rfl⟩

/-- A leaf joins the tree exactly when it is new and there is room. -/
theorem v2Insert_isSome_iff (hins : T.proofVerifier.v2InsertLeaf = v2InsertLeaf hash2)
    (h : KeepsTree hash2 s leaves) (nf leaf : U8Array 32) :
    (∃ s', v2Insert T (markNullifier s nf) leaf = .ok s') ↔
      leaf ∉ leaves ∧ leaves.length < 2 ^ merkleDepth := by
  constructor
  · rintro ⟨_, hinsert⟩
    obtain ⟨hnew, _, _, hleaf, -⟩ := v2Insert_eq_ok.1 hinsert
    rw [hins] at hleaf
    refine ⟨(h.indexed leaf).1 hnew, lt_of_le_of_ne h.holds.room fun hfull => ?_⟩
    have hnone : s.frontierV2.insert hash2 leaf = none := Frontier.insert_eq_none h.holds hfull
    have hnone' : v2InsertLeaf hash2 s.frontierV2 leaf = none := by rw [v2InsertLeaf, hnone]; rfl
    exact absurd (hleaf.symm.trans hnone') (by simp)
  · rintro ⟨hnew, hroom⟩
    obtain ⟨⟨t, newRoot⟩, hleaf⟩ := v2InsertLeaf_isSome h.holds hroom leaf
    rw [← hins] at hleaf
    exact ⟨_, v2Insert_eq_ok.2 ⟨(h.indexed leaf).2 hnew, t, newRoot, hleaf, rfl⟩⟩

theorem ledger_of_v2Insert {nf leaf : U8Array 32}
    (h : v2Insert T (markNullifier s nf) leaf = .ok s') : s'.ledger = s.ledger := by
  obtain ⟨-, _, _, -, rfl⟩ := v2Insert_eq_ok.1 h
  rfl

/-- The proof and the signature of a spend do not depend on the state. -/
theorem Spendable.later {auth pi p : List UInt8} {root nf : U8Array 32} {x : UInt64}
    {cl cp : U8Array 32} {withdraw : Bool}
    (h : Spendable T s auth pi p root nf x cl cp withdraw) (hroot : s'.V2RootAnchored root)
    (hunused : s'.nullifierUsed nf = false) :
    Spendable T s' auth pi p root nf x cl cp withdraw :=
  ⟨hunused, hroot, h.signed, h.length, h.proved⟩

section Succeeds

variable (hins : T.proofVerifier.v2InsertLeaf = v2InsertLeaf hash2)
  (htree : KeepsTree hash2 s leaves) {auth pi p : List UInt8}

include hins htree in
theorem purchaseRwaV2_isSome_iff {i : SpendPublicV2} (hdec : SpendPublicV2.decode pi = some i) :
    (∃ t, apply T s (.none, .purchaseRwaV2 auth pi p) = .ok t) ↔ 0 < s.rwaPrices i.rwaId ∧
      Spendable T s auth pi p i.merkleRoot i.nullifier (s.rwaPrices i.rwaId) i.changeLeaf
        i.changePkd false ∧ i.changeLeaf ∉ leaves ∧ leaves.length < 2 ^ merkleDepth := by
  rw [← v2Insert_isSome_iff hins htree i.nullifier]
  constructor
  · rintro ⟨t, hok⟩
    obtain ⟨-, i', hdec', hprice, hspend, s₁, hinsert, -⟩ := purchaseRwaV2_eq_ok.1 hok
    obtain rfl : i = i' := Option.some.inj (hdec.symm.trans hdec')
    exact ⟨hprice, hspend, s₁, hinsert⟩
  · rintro ⟨hprice, hspend, s₁, hinsert⟩
    exact ⟨_, purchaseRwaV2_eq_ok.2 ⟨rfl, i, hdec, hprice, hspend, s₁, hinsert, rfl⟩⟩

include hins htree in
theorem purchaseAccessV2_isSome_iff {i : SpendPublicV2}
    (hdec : SpendPublicV2.decode pi = some i) :
    (∃ t, apply T s (.none, .purchaseAccessV2 auth pi p) = .ok t) ↔
      ∃ cfg, s.accessKeyConfigs i.rwaId = some cfg ∧ 0 < cfg.price ∧
        Spendable T s auth pi p i.merkleRoot i.nullifier cfg.price i.changeLeaf i.changePkd false ∧
        (i.changeLeaf ∉ leaves ∧ leaves.length < 2 ^ merkleDepth) ∧
        PoolPays T s { value := cfg.price, account := some cfg.paymentAccount } := by
  rw [← v2Insert_isSome_iff hins htree i.nullifier]
  constructor
  · rintro ⟨t, hok⟩
    obtain ⟨-, i', cfg, hdec', hcfg, hprice, hspend, s₁, hinsert, s₂, hpay, -⟩ :=
      purchaseAccessV2_eq_ok.1 hok
    obtain rfl : i = i' := Option.some.inj (hdec.symm.trans hdec')
    have hpaid := payFromPool_isSome_iff.1 ⟨s₂, hpay⟩
    rw [PoolPays, ledger_of_v2Insert hinsert] at hpaid
    exact ⟨cfg, hcfg, hprice, hspend, ⟨s₁, hinsert⟩, hpaid⟩
  · rintro ⟨cfg, hcfg, hprice, hspend, ⟨s₁, hinsert⟩, hpaid⟩
    rw [PoolPays, ← ledger_of_v2Insert hinsert] at hpaid
    obtain ⟨s₂, hpay⟩ := payFromPool_isSome_iff.2 hpaid
    exact ⟨_, purchaseAccessV2_eq_ok.2 ⟨rfl, i, cfg, hdec, hcfg, hprice, hspend, s₁, hinsert, s₂,
      hpay, rfl⟩⟩

theorem withdrawV2_isSome_iff {i : WithdrawPublicV2} (hdec : WithdrawPublicV2.decode pi = some i) :
    (∃ t, apply T s (.none, .withdrawV2 auth pi p) = .ok t) ↔
      Spendable T s auth pi p i.merkleRoot i.nullifier i.amount T.proofVerifier.v2ZeroChangeLeaf
        (U8Array.zero 32) true ∧
        PoolPays T s { value := i.amount, account := some i.destination } := by
  have hpays : (∃ s₁, payFromPool T (markNullifier s i.nullifier) i.destination.toList i.amount =
      .ok s₁) ↔ PoolPays T s { value := i.amount, account := some i.destination } :=
    payFromPool_isSome_iff
  rw [← hpays]
  constructor
  · rintro ⟨t, hok⟩
    obtain ⟨-, i', hdec', hspend, s₁, hpay, -⟩ := withdrawV2_eq_ok.1 hok
    obtain rfl : i = i' := Option.some.inj (hdec.symm.trans hdec')
    exact ⟨hspend, s₁, hpay⟩
  · rintro ⟨hspend, s₁, hpay⟩
    exact ⟨_, withdrawV2_eq_ok.2 ⟨rfl, i, hdec, hspend, s₁, hpay, rfl⟩⟩

end Succeeds

/-- A spend that is good in one state is good in another that accepts its root and has
its terms, exactly when nothing has come in the way. -/
theorem succeeds_iff_undisturbed (hins : T.proofVerifier.v2InsertLeaf = v2InsertLeaf hash2)
    (htree : KeepsTree hash2 s' leaves) {c : Call} {terms : SpendTerms}
    (hok : apply T s (.none, c) = .ok t) (hterms : c.spendTerms s = some terms)
    (hterms' : c.spendTerms s' = some terms) (hroot : ∀ r ∈ c.spendRoot, s'.V2RootAnchored r) :
    (∃ t', apply T s' (.none, c) = .ok t') ↔ Undisturbed T leaves s' c terms := by
  cases c with
  | purchaseRwaV2 auth pi p =>
      obtain ⟨-, i, hdec, hprice, hspend, -⟩ := purchaseRwaV2_eq_ok.1 hok
      simp only [Call.spendTerms, hdec, Option.map_some, Option.some.injEq] at hterms hterms'
      have hsame : s'.rwaPrices i.rwaId = s.rwaPrices i.rwaId := by
        rw [← hterms, SpendTerms.mk.injEq] at hterms'
        exact hterms'.1
      rw [purchaseRwaV2_isSome_iff hins htree hdec, hsame]
      have hroot := hroot i.merkleRoot (by simp [Call.spendRoot, hdec])
      constructor
      · rintro ⟨-, hspend', hroom⟩
        refine ⟨?_, ?_, ?_⟩
        · simpa [Call.footprint, hdec, SpendPublicV2.footprint] using hspend'.fresh
        · simpa [Call.footprint, hdec, SpendPublicV2.footprint] using hroom
        · rw [← hterms]
          simp [PoolPays]
      · rintro ⟨hunused, hroom, -⟩
        simp only [Call.footprint, hdec, SpendPublicV2.footprint, Option.elim_some,
          Option.mem_some_iff, forall_eq'] at hunused hroom
        exact ⟨hprice, hspend.later hroot hunused, hroom⟩
  | purchaseAccessV2 auth pi p =>
      obtain ⟨-, i, cfg, hdec, hcfg, hprice, hspend, -⟩ := purchaseAccessV2_eq_ok.1 hok
      simp only [Call.spendTerms, hdec, Option.bind_some, hcfg, Option.map_some,
        Option.some.injEq, Option.map_eq_some_iff] at hterms hterms'
      obtain ⟨⟨price, account⟩, hcfg', hsame⟩ := hterms'
      rw [← hterms, SpendTerms.mk.injEq, Option.some.injEq] at hsame
      obtain ⟨rfl, rfl⟩ := hsame
      rw [purchaseAccessV2_isSome_iff hins htree hdec]
      have hroot := hroot i.merkleRoot (by simp [Call.spendRoot, hdec])
      constructor
      · rintro ⟨cfg', hcfg'', -, hspend', hroom, hpaid⟩
        obtain rfl := Option.some.inj (hcfg'.symm.trans hcfg'')
        refine ⟨?_, ?_, hterms ▸ hpaid⟩
        · simpa [Call.footprint, hdec, SpendPublicV2.accessFootprint] using hspend'.fresh
        · simpa [Call.footprint, hdec, SpendPublicV2.accessFootprint] using hroom
      · rintro ⟨hunused, hroom, hpaid⟩
        simp only [Call.footprint, hdec, SpendPublicV2.accessFootprint, Option.elim_some,
          Option.mem_some_iff, forall_eq'] at hunused hroom
        exact ⟨_, hcfg', hprice, hspend.later hroot hunused, hroom, hterms ▸ hpaid⟩
  | withdrawV2 auth pi p =>
      obtain ⟨-, i, hdec, hspend, -⟩ := withdrawV2_eq_ok.1 hok
      simp only [Call.spendTerms, hdec, Option.map_some, Option.some.injEq] at hterms
      rw [withdrawV2_isSome_iff hdec]
      have hroot := hroot i.merkleRoot (by simp [Call.spendRoot, hdec])
      constructor
      · rintro ⟨hspend', hpaid⟩
        refine ⟨?_, ?_, hterms ▸ hpaid⟩
        · simpa [Call.footprint, hdec] using hspend'.fresh
        · simp [Call.footprint, hdec]
      · rintro ⟨hunused, -, hpaid⟩
        simp only [Call.footprint, hdec, Option.elim_some, Option.mem_some_iff, forall_eq']
          at hunused
        exact ⟨hspend.later hroot hunused, hterms ▸ hpaid⟩
  | _ => cases hterms

theorem newLeaves_history_append (step : State L → Extrinsic A → Except (DispatchError Error)
    (State L)) (s : State L) (xs ys : List (Extrinsic A)) :
    newLeaves (history step s (xs ++ ys)) =
      newLeaves (history step s xs) ++ newLeaves (history step (run step s xs) ys) := by
  rw [history_append, newLeaves, List.filterMap_append, newLeaves, newLeaves]

/-- A spend is accepted only against the root after some of the leaves. -/
theorem exists_spendRoot (htree : KeepsTree hash2 s leaves) (hstores : StoresTree hash2 s leaves)
    (hne : leaves ≠ []) {c : Call} {terms : SpendTerms} (hok : apply T s (.none, c) = .ok t)
    (hterms : c.spendTerms s = some terms) :
    ∃ k, 0 < k ∧ k ≤ leaves.length ∧ c.spendRoot = some (storedRoot hash2 leaves k) := by
  obtain ⟨r, hr, hanchored⟩ : ∃ r, c.spendRoot = some r ∧ s.V2RootAnchored r := by
    cases c with
    | purchaseRwaV2 auth pi p =>
        obtain ⟨-, i, hdec, -, hspend, -⟩ := purchaseRwaV2_eq_ok.1 hok
        exact ⟨_, by simp [Call.spendRoot, hdec], hspend.anchored⟩
    | purchaseAccessV2 auth pi p =>
        obtain ⟨-, i, _, hdec, -, -, hspend, -⟩ := purchaseAccessV2_eq_ok.1 hok
        exact ⟨_, by simp [Call.spendRoot, hdec], hspend.anchored⟩
    | withdrawV2 auth pi p =>
        obtain ⟨-, i, hdec, hspend, -⟩ := withdrawV2_eq_ok.1 hok
        exact ⟨_, by simp [Call.spendRoot, hdec], hspend.anchored⟩
    | _ => cases hterms
  obtain ⟨k, hlo, hhi, hk⟩ := (anchored_iff htree hstores hne r).1 hanchored
  have hpos : 0 < k := le_trans (le_max_left 1 _) hlo
  rw [rootAfter_eq_some htree.holds.room hpos hhi] at hk
  exact ⟨k, hpos, hhi, hr.trans hk.symm⟩

/-- The root after `k` leaves is accepted until 64 more have joined. -/
theorem anchored_of_window (htree : KeepsTree hash2 s leaves)
    (hstores : StoresTree hash2 s leaves) {k : ℕ} (hpos : 0 < k) (hk : k ≤ leaves.length)
    (hwindow : leaves.length ≤ k + 64) : s.V2RootAnchored (storedRoot hash2 leaves k) := by
  have hne : leaves ≠ [] := List.length_pos_iff.1 (hpos.trans_le hk)
  exact (anchored_iff htree hstores hne _).2
    ⟨k, by omega, hk, rootAfter_eq_some htree.holds.room hpos hk⟩

/-- A spend that a run would accept has a root that stays good for 64 leaves: after any
further calls that keep its terms and add no more, the pool admits it and dispatch accepts
it, exactly when nothing has come in its way. -/
theorem pending_spend_survives (T : Config A L)
    (hins : T.proofVerifier.v2InsertLeaf = v2InsertLeaf hash2) (ledger : L)
    (xs : List (Extrinsic A)) (hne : newLeaves (history (apply T) (genesis ledger) xs) ≠ [])
    {c : Call} {terms : SpendTerms}
    (hok : apply T (run (apply T) (genesis ledger) xs) (.none, c) = .ok t)
    (hterms : c.spendTerms (run (apply T) (genesis ledger) xs) = some terms) :
    ∃ k, 0 < k ∧ k ≤ (newLeaves (history (apply T) (genesis ledger) xs)).length ∧
      c.spendRoot =
        some (storedRoot hash2 (newLeaves (history (apply T) (genesis ledger) xs)) k) ∧
      ∀ ys, (newLeaves (history (apply T) (genesis ledger) (xs ++ ys))).length ≤ k + 64 →
        c.spendTerms (run (apply T) (genesis ledger) (xs ++ ys)) = some terms →
        (((∃ v, validateUnsigned (run (apply T) (genesis ledger) (xs ++ ys)) c = .ok v) ∧
            ∃ t', apply T (run (apply T) (genesis ledger) (xs ++ ys)) (.none, c) = .ok t') ↔
          Undisturbed T (newLeaves (history (apply T) (genesis ledger) (xs ++ ys)))
            (run (apply T) (genesis ledger) (xs ++ ys)) c terms) := by
  obtain ⟨k, hpos, hk, hroot⟩ := exists_spendRoot (keepsTree_run hins ledger xs)
    (storesTree_run hins ledger xs) hne hok hterms
  refine ⟨k, hpos, hk, hroot, fun ys hwindow hterms' => ?_⟩
  have htree := keepsTree_run hins ledger (xs ++ ys)
  have happend := newLeaves_history_append (apply T) (genesis ledger) xs ys
  have hlater : k ≤ (newLeaves (history (apply T) (genesis ledger) (xs ++ ys))).length := by
    rw [happend, List.length_append]
    omega
  have hsame : storedRoot hash2 (newLeaves (history (apply T) (genesis ledger) (xs ++ ys))) k =
      storedRoot hash2 (newLeaves (history (apply T) (genesis ledger) xs)) k := by
    rw [happend, storedRoot, List.take_append_of_le_length hk, storedRoot]
  have hanchored := anchored_of_window htree (storesTree_run hins ledger (xs ++ ys)) hpos hlater
    hwindow
  rw [hsame] at hanchored
  rw [← succeeds_iff_undisturbed hins htree hok hterms hterms' fun r hr => ?_]
  · refine and_iff_right_of_imp fun haccepted => ?_
    obtain ⟨t', hok'⟩ := haccepted
    exact validateUnsigned_of_apply hok'
  · rw [hroot, Option.mem_some_iff] at hr
    exact hr ▸ hanchored

section Example

/-- Two lists of leaves of one tree have the same leaves. -/
theorem KeepsTree.same {leaves' : List (U8Array 32)} (h : KeepsTree hash2 s leaves)
    (h' : KeepsTree hash2 s leaves') :
    leaves.length = leaves'.length ∧ ∀ leaf, leaf ∉ leaves ↔ leaf ∉ leaves' :=
  ⟨h.holds.count.symm.trans h'.holds.count,
    fun leaf => (h.indexed leaf).symm.trans (h'.indexed leaf)⟩

/-- A purchase proved in the open market is accepted after another one. -/
theorem rebuy_survives : ∃ s₀ s₁ : State (U8Array 32 → ℕ),
    run (apply constantConfig) (genesis tenEach) openMarket = s₀ ∧
      apply constantConfig s₀ (rebuyAccessCall s₀ 1) = .ok s₁ ∧
      (∃ v, validateUnsigned s₁ (rebuyCall s₀ 2).2 = .ok v) ∧
      ∃ t, apply constantConfig s₁ (rebuyCall s₀ 2) = .ok t := by
  obtain ⟨s₀, s₁, -, hs₀, -, h₁, -, heff₁, -⟩ := rebuyAccess_succeeds fun _ => U8Array.zero 32
  have hopen : MarketOpen (fun _ => U8Array.zero 32) s₀ := hs₀ ▸ openMarket_run
  have hs₁ : run (apply constantConfig) (genesis tenEach) (openMarket ++ [rebuyAccessCall s₀ 1]) =
      s₁ := by
    rw [run_append, hs₀, run_cons, next_ok h₁, run_nil]
  have hleaf : U8Array.ofNat 32 2 ∉ [U8Array.ofNat 32 9] ++ [U8Array.ofNat 32 1] := by decide
  have hne : U8Array.ofNat 32 2 ≠ U8Array.ofNat 32 1 := by decide
  obtain ⟨t, hok, -, -⟩ := @accepting_purchaseRwaV2 _ _ _ hopen.tree (rebuy s₀ 2)
    (hopen.nullifierUsed _) (.inl rfl) (by rw [rebuy, hopen.price]; decide)
    (fun h => hleaf (List.mem_append_left _ h)) (by decide)
  have hterms : (rebuyCall s₀ 2).2.spendTerms s₀ = some { value := 1, account := none } := by
    simp [rebuyCall, Call.spendTerms, SpendPublicV2.decode_encode, rebuy, hopen.price]
  have hterms₁ : (rebuyCall s₀ 2).2.spendTerms s₁ = some { value := 1, account := none } := by
    rw [← hterms]
    simp [rebuyCall, Call.spendTerms, SpendPublicV2.decode_encode, heff₁.rwaPrices,
      SpendPublicV2.accessFootprint, write]
  have hkeeps := keepsTree_run (T := constantConfig) rfl tenEach openMarket
  rw [hs₀] at hkeeps
  have hkeeps₁ := keepsTree_run (T := constantConfig) rfl tenEach
    (openMarket ++ [rebuyAccessCall s₀ 1])
  rw [hs₁] at hkeeps₁
  have htree₁ : KeepsTree _ s₁ ([U8Array.ofNat 32 9] ++ [U8Array.ofNat 32 1]) :=
    hopen.tree.step rfl heff₁
  obtain ⟨hlen, -⟩ := hkeeps.same hopen.tree
  obtain ⟨hlen₁, hmem₁⟩ := hkeeps₁.same htree₁
  obtain ⟨k, hpos, -, -, hsurvives⟩ := pending_spend_survives constantConfig rfl tenEach openMarket
    (fun h => by rw [h] at hlen; cases hlen) (by rw [hs₀]; exact hok) (by rw [hs₀]; exact hterms)
  have hgood := hsurvives [rebuyAccessCall s₀ 1]
  rw [hs₁, hlen₁] at hgood
  refine ⟨s₀, s₁, hs₀, h₁, (hgood (by simp) hterms₁).2 ⟨?_, ?_, ?_⟩⟩
  · simp [Call.footprint, SpendPublicV2.decode_encode, SpendPublicV2.footprint, rebuy,
      heff₁.nullifierUsed, SpendPublicV2.accessFootprint, write, hopen.nullifierUsed, hne]
  · simp [Call.footprint, SpendPublicV2.decode_encode, SpendPublicV2.footprint, rebuy,
      hmem₁, hlen₁, merkleDepth]
    decide
  · simp [PoolPays]

end Example

end NullaRelay.ProofHub
