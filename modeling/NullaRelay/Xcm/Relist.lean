import NullaRelay.ProofHub.Binding
import NullaRelay.Xcm.Agreement

/-!
# One redeemable owner

A relist moves an ownership record on ProofHub and sends a transfer to the RWA
chain, where records are redeemed. The marketplace has no call for a transfer, so
its delivery moves nothing. Until a transfer is delivered, and as long as no
purchase is made under the id of a relisted record, at most one redemption
succeeds along a chain of relists.
-/

namespace NullaRelay.Xcm.RwaLink

open NullaRelay.Frame Transition RwaParachain
open NullaRelay.ProofHub (Purchase RelistInputs)

variable {A L : Type} {buyer : Purchase → U8Array 32} {T : ProofHub.Config A L}
  {cfg : Marketplace.Config} {s s' : RwaLink L} {h : List (RwaLink L × Input A)}

/-- The relist that a step carries out, if it succeeds. -/
def Input.relist : Input A → Option RelistInputs
  | .hub (_, .relistPrivate i) => some i
  | _ => none

/-- The record that a step redeems, if it succeeds. -/
def Input.redeemed : Input A → Option (U8Array 16)
  | .rwa _ call => call.redeemed
  | _ => none

/-- The transfer that a relist sends. -/
def transferOf (i : RelistInputs) : ProofHub.Message :=
  .rwaTransfer i.oldTxId i.newOwnershipCommitment i.newTxId

/-- The relists that succeeded. -/
def relists (h : List (RwaLink L × Input A)) : List RelistInputs := h.filterMap fun e => e.2.relist

/-- The ids of the redemptions that succeeded. -/
def redemptions (h : List (RwaLink L × Input A)) : List (U8Array 16) :=
  h.filterMap fun e => e.2.redeemed

/-- The message was delivered to the RWA chain. -/
def Delivered (s : RwaLink L) (m : ProofHub.Message) : Prop := m ∈ s.hub.sent.take s.delivered

/-- A relist moved the record of the first id to the second. -/
def Relisted (h : List (RwaLink L × Input A)) (t t' : U8Array 16) : Prop :=
  ∃ i ∈ relists h, i.oldTxId = t ∧ i.newTxId = t'

/-- What is promised of ownership: a delivered relist takes the record from the old
owner and gives it to the new one, who can redeem it unless it was redeemed or
relisted since, and along a chain of relists at most one redemption succeeds. -/
structure OneRedeemableOwner (cfg : Marketplace.Config) (h : List (RwaLink L × Input A))
    (s : RwaLink L) : Prop where
  old_fails : ∀ i ∈ relists h, Delivered s (transferOf i) → ∀ who rwa,
    Marketplace.redeemRwaOwnership cfg s.rwa (.signed who) i.oldTxId i.ownershipBlinding ≠ .ok rwa
  new_redeems : ∀ i ∈ relists h, Delivered s (transferOf i) →
    s.rwa.ownershipRedeemed i.oldTxId = false → s.rwa.ownershipRedeemed i.newTxId = false →
    s.hub.ownershipUsed i.newTxId = false → ∀ blinding,
    Marketplace.computeOwnershipCommitment cfg i.rwaId blinding = i.newOwnershipCommitment →
    ∀ who, ∃ rwa,
      Marketplace.redeemRwaOwnership cfg s.rwa (.signed who) i.newTxId blinding = .ok rwa
  once : ∀ p ∈ purchases h, ∀ ts, List.IsChain (Relisted h) (p.txId :: ts) →
    ((redemptions h).filter fun t => t ∈ p.txId :: ts).length ≤ 1

/-- The step delivers no transfer. -/
def DeliversNoTransfer (e : RwaLink L × Input A) : Prop :=
  e.2 = .deliver → ∀ i, e.1.hub.sent[e.1.delivered]? ≠ some (transferOf i)

/-- A delivered transfer leaves the RWA chain as it was. -/
theorem receive_transferOf (rwa : Marketplace.State) (i : RelistInputs) :
    receive buyer cfg rwa (transferOf i) = rwa := by
  rw [receive, transferOf, received_transfer]
  rfl

/-- Redemptions carry one-time ids. -/
theorem redeem_keyGuard (buyer : Purchase → U8Array 32) (T : ProofHub.Config A L)
    (cfg : Marketplace.Config) :
    KeyGuard (step buyer T cfg) (fun _ _ => True) (fun _ i => i.redeemed.toList)
      (fun s t => s.rwa.ownershipRedeemed t = true) where
  nodup s i s' _ _ := by cases i.redeemed <;> simp
  fresh s i s' _ hstep t ht := by
    cases i with
    | rwa o call =>
        obtain ⟨-, rwa, hcall, rfl⟩ := step_rwa_eq_ok.1 hstep
        have hredeemed : call.redeemed = some t := by simpa [Input.redeemed] using ht
        simpa using Marketplace.unredeemed_of_dispatch hcall hredeemed
    | hub => simp [Input.redeemed] at ht
    | deliver => simp [Input.redeemed] at ht
  marked s i s' _ hstep t ht := by
    cases i with
    | rwa o call =>
        obtain ⟨-, rwa, hcall, rfl⟩ := step_rwa_eq_ok.1 hstep
        have hredeemed : call.redeemed = some t := by simpa [Input.redeemed] using ht
        change rwa.ownershipRedeemed t = true
        rw [(Marketplace.records_of_dispatch hcall).2, hredeemed]
        simp
    | hub => simp [Input.redeemed] at ht
    | deliver => simp [Input.redeemed] at ht
  kept s i s' t hstep ht := by
    cases i with
    | rwa o call =>
        obtain ⟨-, rwa, hcall, rfl⟩ := step_rwa_eq_ok.1 hstep
        change rwa.ownershipRedeemed t = true
        rw [(Marketplace.records_of_dispatch hcall).2]
        cases call.redeemed with
        | none => exact ht
        | some t' =>
            by_cases heq : t = t'
            · simp [heq]
            · simpa [heq] using ht
    | hub x =>
        obtain ⟨hub, -, rfl⟩ := step_hub_eq_ok.1 hstep
        exact ht
    | deliver =>
        obtain ⟨m, -, rfl⟩ := step_deliver_eq_ok.1 hstep
        exact (congrFun (receive_ownershipRedeemed s.rwa m) t).trans ht

theorem redemptions_nodup (buyer : Purchase → U8Array 32) (T : ProofHub.Config A L)
    (cfg : Marketplace.Config) (s : RwaLink L) (is : List (Input A)) :
    (redemptions (history (step buyer T cfg) s is)).Nodup := by
  have hnodup := (redeem_keyGuard buyer T cfg).nodup_history s is fun _ _ => trivial
  rwa [redemptions, List.filterMap_eq_flatMap_toList]

/-- A record on the RWA chain is one of the purchases. -/
theorem Reported.bought {bought : List Purchase} (h : Reported buyer s bought) {t : U8Array 16}
    {r : Marketplace.ProofHubPurchaseRecord} (hr : s.rwa.proofHubPurchases t = some r) :
    ∃ p ∈ bought, p.txId = t := by
  rw [h.rwa, WriteOnce.foldl_writeOnce_apply, Option.none_or] at hr
  obtain ⟨p, hp, heq⟩ := List.mem_map.1 (WriteOnce.mem_of_lookup_eq_some hr)
  have hsent : p ∈ s.hub.sent.filterMap ProofHub.Message.purchase :=
    ((List.take_sublist ..).filterMap _).subset hp
  rw [h.sent] at hsent
  exact ⟨p, hsent, congrArg Prod.fst heq⟩

/-- What holds as long as no transfer is delivered. -/
structure Undelivered (buyer : Purchase → U8Array 32) (s : RwaLink L)
    (past : List (RwaLink L × Input A)) : Prop where
  reported : Reported buyer s (purchases past)
  noTransfer : ∀ i, ¬ Delivered s (transferOf i)
  redeemed : ∀ t ∈ redemptions past, ∃ p ∈ purchases past, p.txId = t

theorem Initial.undelivered (h : Initial s) : Undelivered buyer s ([] : List (_ × Input A)) where
  reported := h.reported
  noTransfer i hi := by
    rw [Delivered, h.sent, List.take_nil] at hi
    exact absurd hi (List.not_mem_nil)
  redeemed t ht := absurd ht (List.not_mem_nil)

theorem redeemed_purchased {bought : List Purchase} (h : Reported buyer s bought) {i : Input A}
    (hstep : step buyer T cfg s i = .ok s') {t : U8Array 16} (ht : i.redeemed = some t) :
    ∃ p ∈ bought, p.txId = t := by
  cases i with
  | rwa o call =>
      obtain ⟨-, rwa, hcall, -⟩ := step_rwa_eq_ok.1 hstep
      cases call with
      | redeemRwaOwnership txId blinding =>
          obtain ⟨_, record, -, hrecord, -⟩ := Marketplace.redeemRwaOwnership_eq_ok.1 hcall
          cases ht
          exact h.bought hrecord
      | _ => cases ht
  | hub => cases ht
  | deliver => cases ht

theorem redemptions_append_singleton (h : List (RwaLink L × Input A)) (s : RwaLink L)
    (i : Input A) : redemptions (h ++ [(s, i)]) = redemptions h ++ i.redeemed.toList := by
  rw [redemptions, List.filterMap_append]
  cases hi : i.redeemed <;> simp [redemptions, hi]

theorem Undelivered.step {past : List (RwaLink L × Input A)} (hpast : Undelivered buyer s past)
    {i : Input A} (hi : DeliversNoTransfer (s, i)) (hstep : step buyer T cfg s i = .ok s') :
    Undelivered buyer s' (past ++ [(s, i)]) := by
  have hreported : Reported buyer s' (purchases (past ++ [(s, i)])) := by
    rw [purchases_append_singleton]
    exact hpast.reported.step hstep
  refine ⟨hreported, ?_, ?_⟩
  · cases i with
    | hub x =>
        obtain ⟨hub, hx, rfl⟩ := step_hub_eq_ok.1 hstep
        intro j hj
        change transferOf j ∈ hub.sent.take s.delivered at hj
        rw [(ProofHub.effect_of_apply hx).sent,
          List.take_append_of_le_length hpast.reported.delivered] at hj
        exact hpast.noTransfer j hj
    | rwa o call =>
        obtain ⟨-, rwa, -, rfl⟩ := step_rwa_eq_ok.1 hstep
        exact hpast.noTransfer
    | deliver =>
        obtain ⟨m, hm, rfl⟩ := step_deliver_eq_ok.1 hstep
        intro j hj
        change transferOf j ∈ s.hub.sent.take (s.delivered + 1) at hj
        rw [List.take_add_one, hm, List.mem_append] at hj
        rcases hj with hj | hj
        · exact hpast.noTransfer j hj
        · have hmj : transferOf j = m := by simpa using hj
          exact hi rfl j (hmj ▸ hm)
  · intro t ht
    rw [redemptions_append_singleton, List.mem_append] at ht
    have hbefore : ∃ p ∈ purchases past, p.txId = t := by
      rcases ht with ht | ht
      · exact hpast.redeemed t ht
      · exact redeemed_purchased hpast.reported hstep (by simpa using ht)
    obtain ⟨p, hp, htx⟩ := hbefore
    rw [purchases_append_singleton]
    exact ⟨p, List.mem_append_left _ hp, htx⟩

theorem undelivered_run (T : ProofHub.Config A L) (cfg : Marketplace.Config) (hinit : Initial s)
    (is : List (Input A)) (hundelivered : ∀ e ∈ history (step buyer T cfg) s is,
      DeliversNoTransfer e) :
    Undelivered buyer (run (step buyer T cfg) s is) (history (step buyer T cfg) s is) := by
  have hstep (s : RwaLink L) (i : Input A) (s' : RwaLink L) (past : List (RwaLink L × Input A))
      (hpast : Undelivered buyer s past) (hi : DeliversNoTransfer (s, i))
      (hs : step buyer T cfg s i = .ok s') : Undelivered buyer s' (past ++ [(s, i)]) :=
    hpast.step hi hs
  exact history_invariant hstep s is [] hinit.undelivered hundelivered

/-- Behind the head of a chain of relists every id is the new one of a relist. -/
theorem exists_relisted_of_mem {t t' : U8Array 16} {ts : List (U8Array 16)}
    (hchain : List.IsChain (Relisted h) (t :: ts)) (ht : t' ∈ ts) :
    ∃ i ∈ relists h, i.newTxId = t' := by
  induction ts generalizing t with
  | nil => cases ht
  | cons u ts ih =>
      obtain ⟨⟨i, hi, -, hnew⟩, htail⟩ := List.isChain_cons_cons.1 hchain
      rcases List.mem_cons.1 ht with rfl | ht
      · exact ⟨i, hi, hnew⟩
      · exact ih htail ht

theorem length_filter_eq_le_one {l : List (U8Array 16)} (hl : l.Nodup) (t : U8Array 16) :
    (l.filter fun u => u = t).length ≤ 1 := by
  rw [← List.countP_eq_length_filter]
  simpa [List.count, beq_eq_decide] using List.nodup_iff_count_le_one.1 hl t

/-- In every run in which no transfer is delivered and no purchase is made under the
new id of a relist, each record has one redeemable owner. -/
theorem oneRedeemableOwner_of_undelivered (buyer : Purchase → U8Array 32)
    (T : ProofHub.Config A L) (cfg : Marketplace.Config) (s : RwaLink L) (is : List (Input A))
    (hinit : Initial s)
    (hundelivered : ∀ e ∈ history (step buyer T cfg) s is, DeliversNoTransfer e)
    (hids : ∀ i ∈ relists (history (step buyer T cfg) s is),
      ∀ p ∈ purchases (history (step buyer T cfg) s is), p.txId ≠ i.newTxId) :
    OneRedeemableOwner cfg (history (step buyer T cfg) s is) (run (step buyer T cfg) s is) := by
  obtain ⟨-, hnone, hredeemed⟩ := undelivered_run T cfg hinit is hundelivered
  constructor
  · exact fun i _ hi => absurd hi (hnone i)
  · exact fun i _ hi => absurd hi (hnone i)
  · intro p hp ts hchain
    refine le_trans (le_of_eq (congrArg List.length (List.filter_congr fun t ht => ?_)))
      (length_filter_eq_le_one (redemptions_nodup buyer T cfg s is) p.txId)
    refine decide_eq_decide.2 ⟨fun hmem => ?_, fun heq => heq ▸ List.mem_cons_self⟩
    rcases List.mem_cons.1 hmem with rfl | hmem
    · rfl
    · obtain ⟨i, hi, hnew⟩ := exists_relisted_of_mem hchain hmem
      obtain ⟨q, hq, htx⟩ := hredeemed t ht
      exact absurd (htx.trans hnew.symm) (hids i hi q hq)

/-- ProofHub with two notes of its first lane, under the tags zero and one, and with
asset zero on sale. -/
def legacyMarket : ProofHub.State (U8Array 32 → ℕ) :=
  { ProofHub.genesis ProofHub.tenEach with
    spendTagCommitments := fun t =>
      if t = U8Array.zero 32 ∨ t = U8Array.ofNat 32 1 then some (U8Array.ofNat 32 1) else none
    spendTagRpCommitments := fun t =>
      if t = U8Array.zero 32 ∨ t = U8Array.ofNat 32 1 then some (U8Array.zero 32) else none
    rwaPrices := fun id => if id = U8Array.zero 32 then 1 else 0 }

/-- The purchase of asset zero with the note of tag zero; the owner's blinding is
three. -/
def ownersPurchase : ProofHub.RwaPurchaseInputs where
  spendTag := U8Array.zero 32
  nullifier := U8Array.zero 32
  rwaId := U8Array.zero 32
  destination := []
  txId := U8Array.zero 16
  ownershipCommitment := U8Array.ofNat 32 3
  changeCommitment := none
  changeSpendTag := none
  purchaseProof := []

/-- The relist of this purchase, for the note of tag one. -/
def ownersRelist : RelistInputs :=
  { ProofHub.wholeRelist with newBuyerSpendTag := U8Array.ofNat 32 1 }

def ownersPurchaseCall : ProofHub.Extrinsic (U8Array 32) :=
  (.none, .purchaseRwa ProofHub.anyAuth ownersPurchase.encode)

def ownersRelistCall : ProofHub.Extrinsic (U8Array 32) := (.none, .relistPrivate ownersRelist)

theorem tailHash_anyAuth (tag : List UInt8) :
    ProofHub.tailHash (tag ++ ProofHub.anyAuth.take 1312) = U8Array.zero 32 := by
  have hauth : ProofHub.anyAuth.take 1312 =
      List.replicate 1280 0 ++ (U8Array.zero 32).toList := by
    rw [ProofHub.anyAuth, List.take_replicate]
    exact (List.replicate_append_replicate (n := 1280) (m := 32)).symm
  rw [hauth, ← List.append_assoc]
  exact ProofHub.tailHash_append _ _

/-- ProofHub after this purchase. -/
def soldMarket : ProofHub.State (U8Array 32 → ℕ) :=
  ProofHub.rwaSold (ProofHub.acceptingConfig ProofHub.tailHash) legacyMarket ownersPurchase
    (U8Array.zero 32)

theorem legacyMarket_note {t : U8Array 32} (ht : t = U8Array.zero 32 ∨ t = U8Array.ofNat 32 1) :
    legacyMarket.spendTagCommitments t = some (U8Array.ofNat 32 1) ∧
      legacyMarket.spendTagRpCommitments t = some (U8Array.zero 32) := by
  simp [legacyMarket, ht]

theorem ownersPurchase_succeeds :
    ProofHub.apply (ProofHub.acceptingConfig ProofHub.tailHash) legacyMarket ownersPurchaseCall =
      .ok soldMarket := by
  obtain ⟨hnote, hrp⟩ := legacyMarket_note (.inl rfl)
  have hpriced : legacyMarket.rwaPrices ownersPurchase.rwaId = 1 := by
    simp [legacyMarket, ownersPurchase]
  exact ProofHub.accepting_purchaseRwa (by decide) (by decide) (tailHash_anyAuth _) rfl
    (by rw [ownersPurchase, hnote]; rfl) rfl (by rw [hpriced]; decide) rfl hrp

theorem ownersRelist_succeeds : ∃ s,
    ProofHub.apply (ProofHub.acceptingConfig ProofHub.tailHash) soldMarket ownersRelistCall =
      .ok s := by
  have hopen (b : U8Array 32) :
      (ProofHub.acceptingConfig ProofHub.tailHash).proofVerifier.verifyCommitment 5 b b = true :=
    @ProofHub.tailHash_verifyCommitment (ProofHub.acceptingPrimitives ProofHub.tailHash) rfl 5 b
  have hrelist : ProofHub.Relistable (ProofHub.acceptingConfig ProofHub.tailHash) soldMarket
      ownersRelist none :=
    { owned := congrArg some (ProofHub.tailHash_append _ (U8Array.ofNat 32 3)).symm
      unsold := rfl
      unused := rfl
      opened := ⟨U8Array.ofNat 32 1, (legacyMarket_note (.inr rfl)).1, hopen _⟩
      covered := by decide
      balanced := rfl
      paid := hopen _ }
  exact ⟨_, ProofHub.relistPrivate_eq_ok.2 ⟨rfl, none, hrelist, _, _,
    ProofHub.doInsertNote_eq_some.2 ⟨rfl, rfl, rfl⟩, rfl⟩⟩

/-- The link that starts with these notes. -/
def legacyLink : RwaLink (U8Array 32 → ℕ) := { genesis ProofHub.tenEach with hub := legacyMarket }

theorem initial_legacyLink : Initial legacyLink := ⟨rfl, rfl, rfl, rfl⟩

def ownersReport : ProofHub.Message :=
  .rwaPurchase (U8Array.zero 32) (U8Array.zero 32) (U8Array.zero 32) 1 (U8Array.zero 16)
    (U8Array.ofNat 32 3)

/-- The purchase as both chains see it. -/
def ownersBuy : Purchase where
  rwaId := U8Array.zero 32
  spendTag := U8Array.zero 32
  nullifier := U8Array.zero 32
  txId := U8Array.zero 16
  ownershipCommitment := U8Array.ofNat 32 3

theorem ownersReport_received (buyer : Purchase → U8Array 32) (cfg : Marketplace.Config) :
    (receive buyer cfg legacyLink.rwa ownersReport).proofHubPurchases (U8Array.zero 16) =
      some (reported buyer ownersBuy) := by
  have hnone : legacyLink.rwa.proofHubPurchases = fun _ => none := rfl
  rw [receive_proofHubPurchases, hnone]
  simp [ownersReport, ProofHub.Message.purchase, WriteOnce.writeOnce, ownersBuy]

/-- The purchase is reported, and the record relisted. -/
theorem relist_run : ∃ s₁ s₂ s₃ : RwaLink (U8Array 32 → ℕ),
    acceptingStep ProofHub.tailHash legacyLink (.hub ownersPurchaseCall) = .ok s₁ ∧
    acceptingStep ProofHub.tailHash s₁ .deliver = .ok s₂ ∧
    acceptingStep ProofHub.tailHash s₂ (.hub ownersRelistCall) = .ok s₃ ∧
    s₁.hub.sent[s₁.delivered]? = some ownersReport ∧
    s₃.hub.sent[s₃.delivered]? = some (transferOf ownersRelist) ∧
    s₃.rwa.ownershipRedeemed = (fun _ => false) ∧
    ∃ record, s₃.rwa.proofHubPurchases (U8Array.zero 16) = some record ∧
      record.ownershipCommitment = U8Array.ofNat 32 3 := by
  obtain ⟨hub, hrelist⟩ := ownersRelist_succeeds
  have hprice : legacyMarket.rwaPrices ownersPurchase.rwaId = 1 := by
    simp [legacyMarket, ownersPurchase]
  have hsold : soldMarket.sent = [ownersReport] := by
    rw [soldMarket, ProofHub.rwaSold, hprice]
    rfl
  have hm : soldMarket.sent[0]? = some ownersReport := by rw [hsold]; rfl
  have hsent : hub.sent[1]? = some (transferOf ownersRelist) := by
    rw [(ProofHub.effect_of_apply hrelist).sent, hsold]
    rfl
  refine ⟨_, _, _, step_hub_eq_ok.2 ⟨_, ownersPurchase_succeeds, rfl⟩,
    step_deliver_eq_ok.2 ⟨_, hm, rfl⟩, step_hub_eq_ok.2 ⟨hub, hrelist, rfl⟩, hm, hsent, ?_, ?_⟩
  · exact receive_ownershipRedeemed _ _
  · have hreceived := ownersReport_received (fun _ => U8Array.zero 32)
      (rwaConfig ProofHub.tailHash)
    exact ⟨_, hreceived, rfl⟩

/-- After its relist was delivered the record is redeemed by its old owner. -/
theorem old_owner_redeems :
    ¬ ∀ (s : RwaLink (U8Array 32 → ℕ)) (is : List (Input (U8Array 32))), Initial s →
      OneRedeemableOwner (rwaConfig ProofHub.tailHash)
        (history (acceptingStep ProofHub.tailHash) s is)
        (run (acceptingStep ProofHub.tailHash) s is) := by
  intro hclaim
  obtain ⟨s₁, s₂, s₃, h₁, h₂, h₃, -, hm, hunused, record, hrecord, hoc⟩ := relist_run
  have h₄ : acceptingStep ProofHub.tailHash s₃ .deliver = .ok _ :=
    step_deliver_eq_ok.2 ⟨_, hm, rfl⟩
  rw [receive_transferOf] at h₄
  have howner := hclaim legacyLink
    [.hub ownersPurchaseCall, .deliver, .hub ownersRelistCall, .deliver] initial_legacyLink
  rw [history_cons_ok h₁, history_cons_ok h₂, history_cons_ok h₃, history_cons_ok h₄,
    run_cons, next_ok h₁, run_cons, next_ok h₂, run_cons, next_ok h₃, run_cons, next_ok h₄,
    run_nil] at howner
  refine howner.old_fails ownersRelist (by simp [relists, Input.relist, ownersRelistCall]) ?_
    (U8Array.zero 32) _ (Marketplace.redeemRwaOwnership_eq_ok.2
      ⟨_, record, rfl, hrecord, congrFun hunused _, ?_, rfl⟩)
  · change transferOf ownersRelist ∈ s₃.hub.sent.take (s₃.delivered + 1)
    rw [List.take_add_one, hm]
    exact List.mem_append_right _ List.mem_cons_self
  · rw [hoc]
    exact ProofHub.tailHash_append _ (U8Array.ofNat 32 3)

/-- As long as the transfer is on its way, the rule applies. -/
theorem pending_relist_one_owner :
    ∃ is : List (Input (U8Array 32)),
      relists (history (acceptingStep ProofHub.tailHash) legacyLink is) = [ownersRelist] ∧
      OneRedeemableOwner (rwaConfig ProofHub.tailHash)
        (history (acceptingStep ProofHub.tailHash) legacyLink is)
        (run (acceptingStep ProofHub.tailHash) legacyLink is) := by
  obtain ⟨s₁, s₂, s₃, h₁, h₂, h₃, hreport, -⟩ := relist_run
  let is : List (Input (U8Array 32)) := [.hub ownersPurchaseCall, .deliver, .hub ownersRelistCall]
  have hhist : history (acceptingStep ProofHub.tailHash) legacyLink is =
      [(legacyLink, .hub ownersPurchaseCall), (s₁, .deliver), (s₂, .hub ownersRelistCall)] := by
    rw [history_cons_ok h₁, history_cons_ok h₂, history_cons_ok h₃, history_nil]
  have hrelists : relists (history (acceptingStep ProofHub.tailHash) legacyLink is) =
      [ownersRelist] := by
    rw [hhist]
    rfl
  have hbought : purchases (history (acceptingStep ProofHub.tailHash) legacyLink is) =
      [ownersBuy] := by
    rw [hhist]
    simp [purchases, Input.purchase, ownersPurchaseCall, ownersRelistCall, ProofHub.Call.purchase,
      ownersBuy, ownersPurchase]
  refine ⟨is, hrelists, oneRedeemableOwner_of_undelivered _ _ _ legacyLink is initial_legacyLink
    ?_ ?_⟩
  · intro e he hdeliver i hi
    rw [hhist] at he
    simp only [List.mem_cons, List.not_mem_nil, or_false] at he
    rcases he with rfl | rfl | rfl
    · cases hdeliver
    · cases hreport.symm.trans hi
    · cases hdeliver
  · intro i hi p hp
    rw [hrelists, List.mem_singleton] at hi
    rw [hbought, List.mem_singleton] at hp
    subst hi hp
    decide

end NullaRelay.Xcm.RwaLink
