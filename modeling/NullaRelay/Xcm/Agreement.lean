import NullaRelay.ProofHub.Accepting
import NullaRelay.Xcm.RwaLink

/-!
# Agreement on purchases

ProofHub overwrites the commitment under a transaction id, the RWA chain refuses
a second record under it, and the id is the caller's choice. Once all messages
are delivered the two agree on every purchase exactly when no two purchases were
made under one id.
-/

namespace NullaRelay.Xcm.RwaLink

open NullaRelay.Frame Transition RwaParachain
open NullaRelay.ProofHub (Purchase effect_of_apply)

variable {A L : Type} {buyer : Purchase → U8Array 32} {T : ProofHub.Config A L}
  {cfg : Marketplace.Config} {s s' : RwaLink L} {bought : List Purchase}

/-- The purchases that ProofHub accepted in a run. -/
def purchases (h : List (RwaLink L × Input A)) : List Purchase := h.filterMap fun e => e.2.purchase

/-- What the chains promise each other about purchases: each has its own record,
and the two commitments under an id are the same. -/
structure Agree (bought : List Purchase) (s : RwaLink L) : Prop where
  recorded : ∀ p ∈ bought, ∃ record, s.rwa.proofHubPurchases p.txId = some record ∧
    record.nullifier = p.nullifier ∧ record.ownershipCommitment = p.ownershipCommitment
  agreed : ∀ t, s.hub.ownershipCommitments t =
    (s.rwa.proofHubPurchases t).map Marketplace.ProofHubPurchaseRecord.ownershipCommitment

/-- Nothing was bought yet and nothing was sent. -/
structure Initial (s : RwaLink L) : Prop where
  ownershipCommitments : s.hub.ownershipCommitments = fun _ => none
  sent : s.hub.sent = []
  proofHubPurchases : s.rwa.proofHubPurchases = fun _ => none
  delivered : s.delivered = 0

/-- A relist of ownership on ProofHub. -/
def Input.Relists : Input A → Prop
  | .hub x => ∃ i, x.2 = .relistPrivate i
  | _ => False

variable (buyer s bought) in
/-- The reports that were sent are those of the purchases so far, and the ones
delivered make up the table of the RWA chain. -/
structure Reported : Prop where
  sent : s.hub.sent.filterMap ProofHub.Message.purchase = bought
  rwa : s.rwa.proofHubPurchases =
    (((s.hub.sent.take s.delivered).filterMap ProofHub.Message.purchase).map
      fun p => (p.txId, reported buyer p)).foldl WriteOnce.writeOnce fun _ => none
  delivered : s.delivered ≤ s.hub.sent.length

variable (s bought) in
/-- The purchases so far make up the table of ProofHub. -/
def Recorded : Prop :=
  s.hub.ownershipCommitments =
    (bought.map fun p => (p.txId, p.ownershipCommitment)).foldl WriteOnce.overwrite fun _ => none

theorem Initial.reported (h : Initial s) : Reported buyer s [] where
  sent := by rw [h.sent]; rfl
  rwa := by rw [h.sent, h.proofHubPurchases, List.take_nil]; rfl
  delivered := by rw [h.delivered]; exact Nat.zero_le _

theorem Reported.step_hub (h : Reported buyer s bought) {x : ProofHub.Extrinsic A}
    {hub : ProofHub.State L} (hx : ProofHub.apply T s.hub x = .ok hub) :
    Reported buyer { s with hub } (bought ++ x.2.purchase.toList) := by
  have hsent := (effect_of_apply hx).sent
  have hsold := @ProofHub.purchase_of_message L s.hub x.2
  constructor
  · change hub.sent.filterMap _ = _
    rw [hsent, List.filterMap_append, h.sent, ← hsold]
    cases (x.2.footprint s.hub).message with
    | none => rfl
    | some m => cases hm : m.purchase <;> simp [hm]
  · change s.rwa.proofHubPurchases = _
    rw [h.rwa, hsent, List.take_append_of_le_length h.delivered]
  · change s.delivered ≤ hub.sent.length
    rw [hsent, List.length_append]
    exact h.delivered.trans (Nat.le_add_right _ _)

theorem Reported.step_rwa (h : Reported buyer s bought) {o : Origin Marketplace.AccountId}
    {call : Marketplace.Call} {rwa : Marketplace.State}
    (ho : o ≠ .signed cfg.proofHubSovereign)
    (hcall : Marketplace.dispatch cfg s.rwa o call = .ok rwa) :
    Reported buyer { s with rwa } bought := by
  have hrecords := (Marketplace.records_of_dispatch hcall).1
  rw [Marketplace.report_eq_none hcall ho] at hrecords
  exact ⟨h.sent, hrecords.trans h.rwa, h.delivered⟩

variable (cfg) in
theorem Reported.step_deliver (h : Reported buyer s bought) {m : ProofHub.Message}
    (hm : s.hub.sent[s.delivered]? = some m) :
    Reported buyer { s with rwa := receive buyer cfg s.rwa m, delivered := s.delivered + 1 }
      bought := by
  obtain ⟨hlt, hget⟩ := List.getElem?_eq_some_iff.1 hm
  refine ⟨h.sent, ?_, hlt⟩
  change (receive buyer cfg s.rwa m).proofHubPurchases = _
  rw [receive_proofHubPurchases, h.rwa, List.take_add_one, hm, List.filterMap_append,
    List.map_append, List.foldl_append]
  cases hp : m.purchase <;> simp [hp]

/-- One step reports what it sells. -/
theorem Reported.step (h : Reported buyer s bought) {i : Input A}
    (hstep : step buyer T cfg s i = .ok s') :
    Reported buyer s' (bought ++ i.purchase.toList) := by
  cases i with
  | hub x =>
      obtain ⟨hub, hx, rfl⟩ := step_hub_eq_ok.1 hstep
      exact h.step_hub hx
  | rwa o call =>
      obtain ⟨ho, rwa, hcall, rfl⟩ := step_rwa_eq_ok.1 hstep
      simpa [Input.purchase] using h.step_rwa ho hcall
  | deliver =>
      obtain ⟨m, hm, rfl⟩ := step_deliver_eq_ok.1 hstep
      simpa [Input.purchase] using h.step_deliver cfg hm

/-- A step other than a relist records what it sells. -/
theorem Recorded.step (h : Recorded s bought) {i : Input A} (hrelist : ¬ i.Relists)
    (hstep : step buyer T cfg s i = .ok s') : Recorded s' (bought ++ i.purchase.toList) := by
  cases i with
  | hub x =>
      obtain ⟨hub, hx, rfl⟩ := step_hub_eq_ok.1 hstep
      change hub.ownershipCommitments = _
      rw [(effect_of_apply hx).ownershipCommitments,
        ProofHub.record_of_purchase (not_exists.1 hrelist), h, List.map_append,
        List.foldl_append, Input.purchase]
      cases x.2.purchase <;> rfl
  | rwa o call =>
      obtain ⟨-, rwa, -, rfl⟩ := step_rwa_eq_ok.1 hstep
      simpa [Input.purchase, Recorded] using h
  | deliver =>
      obtain ⟨m, -, rfl⟩ := step_deliver_eq_ok.1 hstep
      simpa [Input.purchase, Recorded] using h

theorem purchases_append (h h' : List (RwaLink L × Input A)) :
    purchases (h ++ h') = purchases h ++ purchases h' := List.filterMap_append ..

theorem purchases_append_singleton (h : List (RwaLink L × Input A)) (s : RwaLink L) (i : Input A) :
    purchases (h ++ [(s, i)]) = purchases h ++ i.purchase.toList := by
  rw [purchases_append]
  cases hi : i.purchase <;> simp [purchases, hi]

/-- In a run without relists the purchases of the run make up both tables. -/
theorem tables_run (T : ProofHub.Config A L) (cfg : Marketplace.Config) (h : Initial s)
    (is : List (Input A)) (hrelist : ∀ i ∈ is, ¬ i.Relists) :
    Reported buyer (run (step buyer T cfg) s is) (purchases (history (step buyer T cfg) s is)) ∧
      Recorded (run (step buyer T cfg) s is) (purchases (history (step buyer T cfg) s is)) := by
  have hstep (s : RwaLink L) (i : Input A) (s' : RwaLink L) (past : List (RwaLink L × Input A))
      (hpast : Reported buyer s (purchases past) ∧ Recorded s (purchases past))
      (hi : ¬ i.Relists) (hs : step buyer T cfg s i = .ok s') :
      Reported buyer s' (purchases (past ++ [(s, i)])) ∧
        Recorded s' (purchases (past ++ [(s, i)])) := by
    rw [purchases_append_singleton]
    exact ⟨hpast.1.step hs, hpast.2.step hi hs⟩
  have hinv := history_invariant hstep s is [] ⟨h.reported, h.ownershipCommitments⟩
    fun e he => hrelist _ (mem_of_mem_history he)
  simpa using hinv

/-- Purchases carry one-time nullifiers. -/
theorem purchase_keyGuard (buyer : Purchase → U8Array 32) (T : ProofHub.Config A L)
    (cfg : Marketplace.Config) :
    KeyGuard (step buyer T cfg) (fun _ _ => True)
      (fun _ i => (i.purchase.map Purchase.nullifier).toList)
      (fun s n => s.hub.nullifierUsed n = true) where
  nodup s i s' _ _ := by cases i.purchase <;> simp
  fresh s i s' _ hstep n hn := by
    cases i with
    | hub x =>
        obtain ⟨hub, hx, rfl⟩ := step_hub_eq_ok.1 hstep
        obtain ⟨p, hp, rfl⟩ : ∃ p, x.2.purchase = some p ∧ p.nullifier = n := by
          simpa [Input.purchase] using hn
        simpa using ProofHub.nullifier_fresh hx (ProofHub.nullifier_of_purchase hp)
    | rwa => simp [Input.purchase] at hn
    | deliver => simp [Input.purchase] at hn
  marked s i s' _ hstep n hn := by
    cases i with
    | hub x =>
        obtain ⟨hub, hx, rfl⟩ := step_hub_eq_ok.1 hstep
        obtain ⟨p, hp, rfl⟩ : ∃ p, x.2.purchase = some p ∧ p.nullifier = n := by
          simpa [Input.purchase] using hn
        exact ProofHub.nullifierUsed_of_nullifier (effect_of_apply hx)
          (ProofHub.nullifier_of_purchase hp)
    | rwa => simp [Input.purchase] at hn
    | deliver => simp [Input.purchase] at hn
  kept s i s' n hstep hn := by
    cases i with
    | hub x =>
        obtain ⟨hub, hx, rfl⟩ := step_hub_eq_ok.1 hstep
        exact ProofHub.nullifierUsed_mono (effect_of_apply hx) hn
    | rwa o call =>
        obtain ⟨-, rwa, -, rfl⟩ := step_rwa_eq_ok.1 hstep
        exact hn
    | deliver =>
        obtain ⟨m, -, rfl⟩ := step_deliver_eq_ok.1 hstep
        exact hn

theorem nullifiers_nodup (buyer : Purchase → U8Array 32) (T : ProofHub.Config A L)
    (cfg : Marketplace.Config) (s : RwaLink L) (is : List (Input A)) :
    ((purchases (history (step buyer T cfg) s is)).map Purchase.nullifier).Nodup := by
  have hnodup := (purchase_keyGuard buyer T cfg).nodup_history s is fun _ _ => trivial
  convert hnodup using 1
  rw [purchases, List.map_filterMap, List.filterMap_eq_flatMap_toList]

theorem consistent_of_txIds {γ : Type} (h : (bought.map Purchase.txId).Nodup)
    (f : Purchase → γ) : WriteOnce.Consistent (bought.map fun p => (p.txId, f p)) := by
  refine WriteOnce.consistent_of_nodup ?_
  rwa [List.map_map]

/-- With all messages delivered and no id used twice the tables agree. -/
theorem agree_of_txIds (h : Reported buyer s bought) (hhub : Recorded s bought)
    (hall : s.delivered = s.hub.sent.length) (hids : (bought.map Purchase.txId).Nodup) :
    Agree bought s := by
  have hsent : (s.hub.sent.take s.delivered).filterMap ProofHub.Message.purchase = bought := by
    rw [hall, List.take_length, h.sent]
  have hrecord (t : U8Array 16) (r : Marketplace.ProofHubPurchaseRecord) :
      s.rwa.proofHubPurchases t = some r ↔ ∃ p ∈ bought, p.txId = t ∧ reported buyer p = r := by
    rw [h.rwa, hsent, WriteOnce.foldl_writeOnce_eq_some (consistent_of_txIds hids _)]
    simp
  have hcommitment (t : U8Array 16) (oc : U8Array 32) :
      s.hub.ownershipCommitments t = some oc ↔
        ∃ p ∈ bought, p.txId = t ∧ p.ownershipCommitment = oc := by
    rw [hhub, WriteOnce.foldl_overwrite_eq_some (consistent_of_txIds hids _)]
    simp
  constructor
  · intro p hp
    exact ⟨reported buyer p, (hrecord _ _).2 ⟨p, hp, rfl, rfl⟩, rfl, rfl⟩
  · intro t
    ext oc
    rw [hcommitment, Option.map_eq_some_iff]
    constructor
    · rintro ⟨p, hp, ht, hoc⟩
      exact ⟨reported buyer p, (hrecord _ _).2 ⟨p, hp, ht, rfl⟩, hoc⟩
    · rintro ⟨r, hr, hoc⟩
      obtain ⟨p, hp, ht, rfl⟩ := (hrecord _ _).1 hr
      exact ⟨p, hp, ht, hoc⟩

/-- Records of its own for each of two purchases: they have different ids. -/
theorem Agree.txIds_nodup (h : Agree bought s) (hnf : (bought.map Purchase.nullifier).Nodup) :
    (bought.map Purchase.txId).Nodup := by
  refine List.Nodup.map_on (fun p hp q hq hid => ?_) (List.Nodup.of_map _ hnf)
  obtain ⟨r, hr, hrnf, -⟩ := h.recorded p hp
  obtain ⟨r', hr', hrnf', -⟩ := h.recorded q hq
  rw [hid, hr'] at hr
  cases hr
  exact List.inj_on_of_nodup_map hnf hp hq (hrnf.symm.trans hrnf')

/-- In every run in which all messages were delivered, the chains agree on the
purchases exactly when these have pairwise different transaction ids. -/
theorem agree_iff_txIds_nodup (buyer : Purchase → U8Array 32) (T : ProofHub.Config A L)
    (cfg : Marketplace.Config) (s : RwaLink L) (is : List (Input A)) (hinit : Initial s)
    (hrelist : ∀ i ∈ is, ¬ i.Relists)
    (hall : (run (step buyer T cfg) s is).delivered =
      (run (step buyer T cfg) s is).hub.sent.length) :
    Agree (purchases (history (step buyer T cfg) s is)) (run (step buyer T cfg) s is) ↔
      ((purchases (history (step buyer T cfg) s is)).map Purchase.txId).Nodup := by
  constructor
  · intro h
    exact h.txIds_nodup (nullifiers_nodup buyer T cfg s is)
  · obtain ⟨hreported, hrecorded⟩ := @tables_run _ _ buyer s T cfg hinit is hrelist
    exact agree_of_txIds hreported hrecorded hall

theorem initial_genesis (ledger : L) : Initial (genesis ledger) := ⟨rfl, rfl, rfl, rfl⟩

theorem purchases_eq_nil {h : List (RwaLink L × Input A)} (hnone : ∀ e ∈ h, e.2.purchase = none) :
    purchases h = [] := List.filterMap_eq_nil_iff.2 hnone

/-- Deliveries sell nothing. -/
theorem purchases_drain (s : RwaLink L) :
    purchases (history (step buyer T cfg) s (drain s)) = [] := by
  refine purchases_eq_nil fun e he => ?_
  rw [List.eq_of_mem_replicate (mem_of_mem_history he)]
  rfl

theorem not_relists_of_mem_drain {i : Input A} (hi : i ∈ drain s) : ¬ i.Relists := by
  rw [List.eq_of_mem_replicate hi]
  exact id

/-- The market is opened, asset zero is bought twice under the transaction id zero,
and all messages are delivered. -/
def rebuyRun (s₀ s₁ s₂ : ProofHub.State (U8Array 32 → ℕ)) : List (Input (U8Array 32)) :=
  ProofHub.openMarket.map .hub ++
    ([.hub (ProofHub.rebuyCall s₀ 1), .hub (ProofHub.rebuyCall s₁ 2)] ++
    drain { genesis ProofHub.tenEach with hub := s₂ })

theorem rebuyRun_not_relists (s₀ s₁ s₂ : ProofHub.State (U8Array 32 → ℕ)) :
    ∀ i ∈ rebuyRun s₀ s₁ s₂, ¬ i.Relists := by
  intro i hi
  rcases List.mem_append.1 hi with hopen | hi
  · obtain ⟨x, hx, rfl⟩ := List.mem_map.1 hopen
    rintro ⟨j, hj⟩
    simp only [ProofHub.openMarket, List.mem_cons, List.not_mem_nil, or_false] at hx
    rcases hx with rfl | rfl | rfl <;> cases hj
  rcases List.mem_append.1 hi with hbuy | hdrain
  · simp only [List.mem_cons, List.not_mem_nil, or_false] at hbuy
    rcases hbuy with rfl | rfl
    · rintro ⟨j, hj⟩
      cases hj
    · rintro ⟨j, hj⟩
      cases hj
  · exact not_relists_of_mem_drain hdrain

/-- Both chains over primitives that accept. -/
abbrev acceptingStep (blake3 : List UInt8 → U8Array 32) :
    RwaLink (U8Array 32 → ℕ) → Input (U8Array 32) → Except Refusal (RwaLink (U8Array 32 → ℕ)) :=
  step (fun _ => U8Array.zero 32) (ProofHub.acceptingConfig blake3) (rwaConfig blake3)

/-- The purchase of asset zero that is made twice. -/
def rebought (n : ℕ) : Purchase where
  rwaId := U8Array.zero 32
  spendTag := U8Array.ofNat 32 n
  nullifier := U8Array.ofNat 32 n
  txId := U8Array.zero 16
  ownershipCommitment := U8Array.ofNat 32 n

theorem purchase_rebuyCall {s : ProofHub.State (U8Array 32 → ℕ)} (n : ℕ) :
    (ProofHub.rebuyCall s n).2.purchase = some (rebought n) := by
  rw [ProofHub.rebuyCall, ProofHub.Call.purchase, ProofHub.SpendPublicV2.decode_encode]
  rfl

theorem rebuyRun_spec (blake3 : List UInt8 → U8Array 32) :
    ∃ is : List (Input (U8Array 32)), (∀ i ∈ is, ¬ i.Relists) ∧
      (run (acceptingStep blake3) (genesis ProofHub.tenEach) is).delivered =
        (run (acceptingStep blake3) (genesis ProofHub.tenEach) is).hub.sent.length ∧
      purchases (history (acceptingStep blake3) (genesis ProofHub.tenEach) is) =
        [rebought 1, rebought 2] := by
  obtain ⟨s₀, s₁, s₂, hs₀, -, h₁, h₂, -, -⟩ := ProofHub.rebuy_succeeds blake3
  let link (hub : ProofHub.State (U8Array 32 → ℕ)) : RwaLink (U8Array 32 → ℕ) :=
    { genesis ProofHub.tenEach with hub }
  have hopen : run (acceptingStep blake3) (genesis ProofHub.tenEach)
      (ProofHub.openMarket.map .hub) = link s₀ := by
    rw [run_hub]
    exact congrArg link hs₀
  have hbuy₁ : acceptingStep blake3 (link s₀) (.hub (ProofHub.rebuyCall s₀ 1)) = .ok (link s₁) :=
    step_hub_eq_ok.2 ⟨s₁, h₁, rfl⟩
  have hbuy₂ : acceptingStep blake3 (link s₁) (.hub (ProofHub.rebuyCall s₁ 2)) = .ok (link s₂) :=
    step_hub_eq_ok.2 ⟨s₂, h₂, rfl⟩
  have hbought : run (acceptingStep blake3) (link s₀)
      [.hub (ProofHub.rebuyCall s₀ 1), .hub (ProofHub.rebuyCall s₁ 2)] = link s₂ := by
    rw [run_cons, next_ok hbuy₁, run_cons, next_ok hbuy₂, run_nil]
  refine ⟨rebuyRun s₀ s₁ s₂, rebuyRun_not_relists s₀ s₁ s₂, ?_, ?_⟩
  · obtain ⟨hhub, hdelivered⟩ := run_drain (fun _ => U8Array.zero 32)
      (ProofHub.acceptingConfig blake3) (rwaConfig blake3) s₂.sent.length (link s₂)
      (Nat.zero_add _)
    rw [rebuyRun, run_append, run_append, hopen, hbought, drain]
    exact hdelivered.trans (congrArg (fun hub => hub.sent.length) hhub).symm
  · have hnone : purchases (history (acceptingStep blake3) (genesis ProofHub.tenEach)
        (ProofHub.openMarket.map .hub)) = [] := by
      refine purchases_eq_nil fun e he => ?_
      obtain ⟨x, hx, hi⟩ := List.mem_map.1 (mem_of_mem_history he)
      rw [← hi]
      simp only [ProofHub.openMarket, List.mem_cons, List.not_mem_nil, or_false] at hx
      rcases hx with rfl | rfl | rfl <;> rfl
    rw [rebuyRun, history_append, history_append, purchases_append, purchases_append, hopen,
      hbought, hnone, purchases_drain, history_cons_ok hbuy₁, history_cons_ok hbuy₂, history_nil]
    simp [purchases, Input.purchase, purchase_rebuyCall]

/-- Asset zero bought twice under one transaction id: the chains disagree. -/
theorem rebuy_disagrees :
    ¬ ∀ is : List (Input (U8Array 32)), (∀ i ∈ is, ¬ i.Relists) →
      (run (acceptingStep fun _ => U8Array.zero 32) (genesis ProofHub.tenEach) is).delivered =
        (run (acceptingStep fun _ => U8Array.zero 32) (genesis ProofHub.tenEach)
          is).hub.sent.length →
      Agree (purchases (history (acceptingStep fun _ => U8Array.zero 32)
          (genesis ProofHub.tenEach) is))
        (run (acceptingStep fun _ => U8Array.zero 32) (genesis ProofHub.tenEach) is) := by
  intro hclaim
  obtain ⟨is, hrelist, hall, hbought⟩ := rebuyRun_spec fun _ => U8Array.zero 32
  have hagree := hclaim is hrelist hall
  have hnodup := hagree.txIds_nodup (nullifiers_nodup _ _ _ _ is)
  rw [hbought] at hnodup
  exact absurd hnodup (by decide)

/-- That is what the rule says of this run. -/
theorem rebuy_agree_iff :
    ∃ is : List (Input (U8Array 32)),
      purchases (history (acceptingStep fun _ => U8Array.zero 32) (genesis ProofHub.tenEach) is) =
        [rebought 1, rebought 2] ∧
      (Agree (purchases (history (acceptingStep fun _ => U8Array.zero 32)
          (genesis ProofHub.tenEach) is))
        (run (acceptingStep fun _ => U8Array.zero 32) (genesis ProofHub.tenEach) is) ↔
        ((purchases (history (acceptingStep fun _ => U8Array.zero 32)
          (genesis ProofHub.tenEach) is)).map Purchase.txId).Nodup) := by
  obtain ⟨is, hrelist, hall, hbought⟩ := rebuyRun_spec fun _ => U8Array.zero 32
  exact ⟨is, hbought, agree_iff_txIds_nodup _ _ _ _ is (initial_genesis _) hrelist hall⟩

end NullaRelay.Xcm.RwaLink
