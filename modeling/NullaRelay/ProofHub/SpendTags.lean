import NullaRelay.ProofHub.Accepting

/-!
# Spend tags of ProofHub

Notes of the first lane are registered under spend tags. A purchase registers its
change and a relist its payment and its change under tags that the caller names,
and the registry takes the last commitment it is given: a call that names a tag
of somebody else replaces that note's commitment. The registry is stable exactly
as long as no call registers another commitment under a tag that is registered,
unused and not spent by the call itself.
-/

namespace NullaRelay.ProofHub

open NullaRelay.Frame V2 Transition

variable {A L : Type} {T : Config A L} {s s' : State L} {x : Extrinsic A}

variable (T s) in
/-- The call carries an authorization for the tag: a signature under its key, or
for a relist the opening of its commitment. -/
def Authorizes (t : U8Array 32) : Call → Prop
  | .purchaseRwa proof pi | .purchaseAccess proof pi =>
      ∃ i, RwaPurchaseInputs.decode pi = some i ∧ i.spendTag = t ∧
        T.proofVerifier.verifyPurchase proof pi = true
  | .withdrawPrivate proof pi =>
      ∃ i, WithdrawInputs.decode pi = some i ∧ i.spendTag = t ∧
        T.proofVerifier.verifyWithdrawal proof pi = true
  | .relistPrivate i =>
      i.newBuyerSpendTag = t ∧ ∃ stored, s.spendTagCommitments t = some stored ∧
        T.proofVerifier.verifyCommitment i.buyerValue i.buyerBlinding stored = true
  | _ => False

variable (T s s') in
/-- What is promised of spend tags: a registered, unused tag keeps its commitment
unless the call spends it with an authorization for it. -/
def KeepsTags (call : Call) : Prop :=
  ∀ t c, s.spendTagCommitments t = some c → s.spendTagUsed t = false →
    (s'.spendTagUsed t = true ∧ Authorizes T s t call) ∨ s'.spendTagCommitments t = some c

/-- The commitment that a call leaves registered under a tag. -/
def Call.registration (s : State L) (call : Call) : U8Array 32 → Option (U8Array 32) :=
  registerNotes (fun _ => none) (call.registered s)

/-- The call registers under a tag that is registered and unused only if it spends
the tag itself, or what is registered already. -/
def RegistersApart (s : State L) (call : Call) : Prop :=
  ∀ t c', call.registration s t = some c' → ∀ c ∈ s.spendTagCommitments t,
    s.spendTagUsed t = true ∨ (call.footprint s).spentTag = some t ∨ c = c'

/-- A call that succeeds carries an authorization for the tag it spends. -/
theorem authorizes_iff_spentTag (h : apply T s x = .ok s') (t : U8Array 32) :
    Authorizes T s t x.2 ↔ (x.2.footprint s).spentTag = some t := by
  obtain ⟨o, call⟩ := x
  cases call with
  | purchaseRwa p pi =>
      obtain ⟨-, inputs, rp, hspend, rfl⟩ := purchaseRwa_eq_ok.1 h
      simp [Authorizes, Call.footprint, RwaPurchaseInputs.footprint, hspend.decoded, hspend.signed]
  | purchaseAccess p pi =>
      obtain ⟨-, inputs, cfg, rp, -, hspend, s₁, hpay, rfl⟩ := purchaseAccess_eq_ok.1 h
      simp [Authorizes, Call.footprint, RwaPurchaseInputs.accessFootprint, hspend.decoded,
        hspend.signed]
  | withdrawPrivate p pi =>
      obtain ⟨-, inputs, hdec, -, hsig, -, -, s₁, hpay, rfl⟩ := withdrawPrivate_eq_ok.1 h
      simp [Authorizes, Call.footprint, hdec, hsig]
  | relistPrivate inputs =>
      obtain ⟨-, change, hrelist, s₁, leaves, hins, rfl⟩ := relistPrivate_eq_ok.1 h
      have hopened := hrelist.opened
      simp only [Authorizes, Call.footprint, RelistInputs.footprint, Option.some.injEq]
      exact ⟨fun ht => ht.1, fun ht => ⟨ht, ht ▸ hopened⟩⟩
  | purchaseAccessV2 auth pi p =>
      obtain ⟨-, inputs, cfg, hdec, -⟩ := purchaseAccessV2_eq_ok.1 h
      simp [Authorizes, Call.footprint, SpendPublicV2.accessFootprint, hdec]
  | purchaseRwaV2 auth pi p =>
      obtain ⟨-, inputs, hdec, -⟩ := purchaseRwaV2_eq_ok.1 h
      simp [Authorizes, Call.footprint, SpendPublicV2.footprint, hdec]
  | withdrawV2 auth pi p =>
      obtain ⟨-, inputs, hdec, -⟩ := withdrawV2_eq_ok.1 h
      simp [Authorizes, Call.footprint, hdec]
  | depositPublic c rp rpc t hints => simp [Authorizes, Call.footprint]
  | setRwaPrice id price => simp [Authorizes, Call.footprint]
  | setAccessConfig id price acc => simp [Authorizes, Call.footprint]
  | depositV2 leaf amount p hints => simp [Authorizes, Call.footprint]

theorem spendTagUsed_of_spentTag {f : Footprint} (h : Effect T s s' f) {t : U8Array 32}
    (ht : f.spentTag = some t) : s'.spendTagUsed t = true := by
  rw [h.spendTagUsed, ht]
  simp [write]

/-- One call keeps the tags exactly when it registers apart from them. -/
theorem keepsTags_iff (h : apply T s x = .ok s') :
    KeepsTags T s s' x.2 ↔ RegistersApart s x.2 := by
  have htags (t : U8Array 32) : s'.spendTagCommitments t =
      (x.2.registration s t).or (s.spendTagCommitments t) := by
    rw [spendTagCommitments_of_apply h]
    exact registerNotes_apply _ _ t
  constructor
  · intro hkeeps t c' hreg c hc
    cases hused : s.spendTagUsed t with
    | true => exact .inl rfl
    | false =>
        rcases hkeeps t c hc hused with ⟨-, hauth⟩ | hstays
        · exact .inr (.inl ((authorizes_iff_spentTag h t).1 hauth))
        · rw [htags, hreg, Option.some_or] at hstays
          exact .inr (.inr (Option.some.inj hstays).symm)
  · intro hapart t c hc hunused
    by_cases hspent : (x.2.footprint s).spentTag = some t
    · exact .inl ⟨spendTagUsed_of_spentTag (effect_of_apply h) hspent,
        (authorizes_iff_spentTag h t).2 hspent⟩
    · right
      rw [htags]
      cases hreg : x.2.registration s t with
      | none => exact hc
      | some c' =>
          rcases hapart t c' hreg c hc with hused | hspent' | rfl
          · rw [hunused] at hused
            cases hused
          · exact absurd hspent' hspent
          · rfl

/-- Over a run from any storage the registered tags are stable exactly when every
call registers apart from them. -/
theorem tags_stable_iff_apart (T : Config A L) (s : State L) (xs : List (Extrinsic A)) :
    (∀ e ∈ history (apply T) s xs, KeepsTags T e.1 (next (apply T) e.1 e.2) e.2.2) ↔
      ∀ e ∈ history (apply T) s xs, RegistersApart e.1 e.2.2 := by
  refine forall₂_congr fun e he => ?_
  obtain ⟨s', hs'⟩ := ok_of_mem_history he
  rw [next_ok hs']
  exact keepsTags_iff hs'

/-- A storage with two legacy notes, under the tags zero and one. -/
def legacyTags : State (U8Array 32 → ℕ) :=
  { genesis tenEach with
    spendTagCommitments := fun t =>
      if t = U8Array.zero 32 then some (U8Array.ofNat 32 5)
      else if t = U8Array.ofNat 32 1 then some (U8Array.ofNat 32 6) else none
    spendTagRpCommitments := fun t =>
      if t = U8Array.zero 32 ∨ t = U8Array.ofNat 32 1 then some t else none
    rwaPrices := fun _ => 1 }

/-- A purchase with the note zero that names the tag one for its change. -/
def redirecting : RwaPurchaseInputs where
  spendTag := U8Array.zero 32
  nullifier := U8Array.zero 32
  rwaId := U8Array.zero 32
  destination := []
  txId := U8Array.zero 16
  ownershipCommitment := U8Array.zero 32
  changeCommitment := some (U8Array.ofNat 32 7)
  changeSpendTag := some (U8Array.ofNat 32 1)
  purchaseProof := []

/-- The holder of the note zero replaces the commitment of the note one. -/
theorem purchase_redirects_note :
    ¬ ∀ (s : State (U8Array 32 → ℕ)) (xs : List (Extrinsic (U8Array 32))),
      ∀ e ∈ history (apply (acceptingConfig fun _ => U8Array.zero 32)) s xs,
        KeepsTags (acceptingConfig fun _ => U8Array.zero 32) e.1
          (next (apply (acceptingConfig fun _ => U8Array.zero 32)) e.1 e.2) e.2.2 := by
  intro hclaim
  have hdec : RwaPurchaseInputs.decode redirecting.encode = some redirecting :=
    RwaPurchaseInputs.decode_encode (by decide) (by decide)
  have hs' := @accepting_purchaseRwa (fun _ => U8Array.zero 32) legacyTags redirecting
    (U8Array.ofNat 32 1) (U8Array.zero 32) (by decide) (by decide) rfl rfl rfl rfl (by decide) rfl
    rfl
  have hkeeps := hclaim legacyTags [(.none, .purchaseRwa anyAuth redirecting.encode)] _ (by
    rw [history_cons_ok hs']
    exact List.mem_singleton_self _)
  rw [next_ok hs'] at hkeeps
  have hspent : (Call.footprint legacyTags (.purchaseRwa anyAuth redirecting.encode)).spentTag =
      some (U8Array.zero 32) := by
    rw [Call.footprint, hdec]
    rfl
  have hregistered : Call.registered legacyTags (.purchaseRwa anyAuth redirecting.encode) =
      [(U8Array.ofNat 32 7, U8Array.ofNat 32 1)] := by
    rw [Call.registered, hdec]
    rfl
  rcases hkeeps (U8Array.ofNat 32 1) (U8Array.ofNat 32 6) rfl rfl with ⟨-, hauth⟩ | hstays
  · have hzero := (authorizes_iff_spentTag hs' _).1 hauth
    rw [hspent] at hzero
    exact absurd (Option.some.inj hzero) (by decide)
  · rw [spendTagCommitments_of_apply hs', hregistered] at hstays
    have hreplaced : some (U8Array.ofNat 32 7) = some (U8Array.ofNat 32 6) := hstays
    exact absurd (Option.some.inj hreplaced) (by decide)

end NullaRelay.ProofHub
