import NullaRelay.ProofHub.Effects

/-!
# The footprint of a ProofHub call

One statement for all calls: the marks, records, tags, leaves and messages that a
call writes when it succeeds are read off from its arguments and the state before
it, and nothing else of these maps changes.
-/

namespace NullaRelay.ProofHub

open NullaRelay.Frame V2

variable {A L : Type} {T : Config A L} {s s' : State L} {o : Origin A}

/-- The two states agree outside the v1 notes, their tree and the events. -/
structure SameOutside (s s' : State L) : Prop where
  nullifierUsed : s'.nullifierUsed = s.nullifierUsed
  ownershipCommitments : s'.ownershipCommitments = s.ownershipCommitments
  ownershipUsed : s'.ownershipUsed = s.ownershipUsed
  spendTagRpCommitments : s'.spendTagRpCommitments = s.spendTagRpCommitments
  spendTagUsed : s'.spendTagUsed = s.spendTagUsed
  rwaPrices : s'.rwaPrices = s.rwaPrices
  accessKeyConfigs : s'.accessKeyConfigs = s.accessKeyConfigs
  frontierV2 : s'.frontierV2 = s.frontierV2
  currentRootV2 : s'.currentRootV2 = s.currentRootV2
  recentRootsV2 : s'.recentRootsV2 = s.recentRootsV2
  leafIndexV2 : s'.leafIndexV2 = s.leafIndexV2
  sent : s'.sent = s.sent

theorem sameOutside_of_withoutNotes (h : s'.withoutNotes = s.withoutNotes) : SameOutside s s' where
  nullifierUsed := (congrArg State.nullifierUsed h :)
  ownershipCommitments := (congrArg State.ownershipCommitments h :)
  ownershipUsed := (congrArg State.ownershipUsed h :)
  spendTagRpCommitments := (congrArg State.spendTagRpCommitments h :)
  spendTagUsed := (congrArg State.spendTagUsed h :)
  rwaPrices := (congrArg State.rwaPrices h :)
  accessKeyConfigs := (congrArg State.accessKeyConfigs h :)
  frontierV2 := (congrArg State.frontierV2 h :)
  currentRootV2 := (congrArg State.currentRootV2 h :)
  recentRootsV2 := (congrArg State.recentRootsV2 h :)
  leafIndexV2 := (congrArg State.leafIndexV2 h :)
  sent := (congrArg State.sent h :)

theorem SameOutside.fields (h : SameOutside s s') :
    s'.nullifierUsed = s.nullifierUsed ∧ s'.ownershipCommitments = s.ownershipCommitments ∧
      s'.ownershipUsed = s.ownershipUsed ∧
      s'.spendTagRpCommitments = s.spendTagRpCommitments ∧ s'.spendTagUsed = s.spendTagUsed ∧
      s'.rwaPrices = s.rwaPrices ∧ s'.accessKeyConfigs = s.accessKeyConfigs ∧
      s'.frontierV2 = s.frontierV2 ∧ s'.currentRootV2 = s.currentRootV2 ∧
      s'.recentRootsV2 = s.recentRootsV2 ∧ s'.leafIndexV2 = s.leafIndexV2 ∧ s'.sent = s.sent :=
  ⟨h.1, h.2, h.3, h.4, h.5, h.6, h.7, h.8, h.9, h.10, h.11, h.12⟩

/-- What a call writes outside the v1 notes: the nullifier and the spend tag that
it marks, the ownership record that it writes and the one that it consumes, the
price or the app that it configures, the leaf that it adds to the v2 tree and the
message that it sends. -/
structure Footprint where
  nullifier : Option (U8Array 32) := none
  spentTag : Option (U8Array 32) := none
  record : Option (U8Array 16 × U8Array 32) := none
  consumed : Option (U8Array 16) := none
  price : Option (U8Array 32 × UInt64) := none
  app : Option (U8Array 32 × AppConfig) := none
  leaf : Option (U8Array 32) := none
  message : Option Message := none

def RwaPurchaseInputs.footprint (s : State L) (i : RwaPurchaseInputs) : Footprint where
  nullifier := some i.nullifier
  spentTag := some i.spendTag
  record := some (i.txId, i.ownershipCommitment)
  message := some (.rwaPurchase i.rwaId i.nullifier i.spendTag (s.rwaPrices i.rwaId) i.txId
    i.ownershipCommitment)

def RwaPurchaseInputs.accessFootprint (i : RwaPurchaseInputs) : Footprint where
  nullifier := some i.nullifier
  spentTag := some i.spendTag
  message := some (.accessKey i.rwaId i.nullifier i.txId i.ownershipCommitment)

def RelistInputs.footprint (i : RelistInputs) : Footprint where
  spentTag := some i.newBuyerSpendTag
  record := some (i.newTxId, i.newOwnershipCommitment)
  consumed := some i.oldTxId
  message := some (.rwaTransfer i.oldTxId i.newOwnershipCommitment i.newTxId)

def SpendPublicV2.footprint (s : State L) (i : SpendPublicV2) : Footprint where
  nullifier := some i.nullifier
  record := some (i.txId, i.ownershipCommitment)
  leaf := some i.changeLeaf
  message := some (.rwaPurchase i.rwaId i.nullifier i.nullifier (s.rwaPrices i.rwaId) i.txId
    i.ownershipCommitment)

def SpendPublicV2.accessFootprint (i : SpendPublicV2) : Footprint where
  nullifier := some i.nullifier
  leaf := some i.changeLeaf
  message := some (.accessKey i.rwaId i.nullifier i.txId i.ownershipCommitment)

/-- The footprint of a call, from its arguments and the prices. -/
def Call.footprint (s : State L) : Call → Footprint
  | .purchaseRwa _ pi => (RwaPurchaseInputs.decode pi).elim {} fun i => i.footprint s
  | .purchaseAccess _ pi => (RwaPurchaseInputs.decode pi).elim {} fun i => i.accessFootprint
  | .withdrawPrivate _ pi =>
      (WithdrawInputs.decode pi).elim {} fun i => { spentTag := some i.spendTag }
  | .relistPrivate i => i.footprint
  | .depositV2 leaf _ _ _ => { leaf := some leaf }
  | .purchaseRwaV2 _ pi _ => (SpendPublicV2.decode pi).elim {} fun i => i.footprint s
  | .purchaseAccessV2 _ pi _ => (SpendPublicV2.decode pi).elim {} fun i => i.accessFootprint
  | .withdrawV2 _ pi _ =>
      (WithdrawPublicV2.decode pi).elim {} fun i => { nullifier := some i.nullifier }
  | .setRwaPrice id price => { price := some (id, price) }
  | .setAccessConfig id price paymentAccount => { app := some (id, { price, paymentAccount }) }
  | .depositPublic .. => {}

/-- What a call marks by inputs that have to be decoded comes from the inputs. -/
theorem exists_of_elim {α β : Type} {o : Option α} {f : α → Footprint} {b : β}
    (field : Footprint → Option β) (hnone : field {} = none) (h : field (o.elim {} f) = some b) :
    ∃ i, o = some i ∧ field (f i) = some b := by
  cases o with
  | none => simp [hnone] at h
  | some i => exact ⟨i, rfl, h⟩

/-- A relist alone consumes an ownership record. -/
theorem relistPrivate_of_consumed {c : Call} {tx : U8Array 16}
    (h : (c.footprint s).consumed = some tx) : ∃ i, c = .relistPrivate i := by
  cases c with
  | relistPrivate i => exact ⟨i, rfl⟩
  | purchaseRwa p pi | purchaseAccess p pi | withdrawPrivate p pi | purchaseRwaV2 auth pi p
  | purchaseAccessV2 auth pi p | withdrawV2 auth pi p =>
      obtain ⟨i, -, hi⟩ := exists_of_elim Footprint.consumed rfl h
      cases hi
  | _ => cases h

/-- A map after an entry is written, where there is one. -/
def write {α β : Type} [DecidableEq α] (m : α → β) : Option (α × β) → α → β
  | some (k, v) => insertAt m k v
  | none => m

/-- A mark that is written. -/
theorem write_true_eq_false {α : Type} [DecidableEq α] (m : α → Bool) (o : Option α) (k : α) :
    write m (o.map (·, true)) k = false ↔ m k = false ∧ o ≠ some k := by
  cases o with
  | none => simp [write]
  | some k' =>
      by_cases hk : k = k'
      · simp [write, hk]
      · simp [write, hk, Ne.symm hk]

/-- What a call does to the v2 tree, given the leaf that it adds. -/
def TreeEffect (T : Config A L) (s s' : State L) : Option (U8Array 32) → Prop
  | none => s'.frontierV2 = s.frontierV2 ∧ s'.currentRootV2 = s.currentRootV2 ∧
      s'.recentRootsV2 = s.recentRootsV2 ∧ s'.leafIndexV2 = s.leafIndexV2
  | some leaf => s.leafIndexV2 leaf = none ∧
      T.proofVerifier.v2InsertLeaf s.frontierV2 leaf = some (s'.frontierV2, s'.currentRootV2) ∧
      s'.recentRootsV2 = (if 0 < s.frontierV2.leafCount then
        NoteTree.pushRoot s.recentRootsV2 s.currentRootV2 else s.recentRootsV2) ∧
      s'.leafIndexV2 = insertAt s.leafIndexV2 leaf (some s.frontierV2.leafCount)

variable (T s s') in
/-- The state changes by the footprint. -/
structure Effect (f : Footprint) : Prop where
  nullifierUsed : s'.nullifierUsed = write s.nullifierUsed (f.nullifier.map (·, true))
  spendTagUsed : s'.spendTagUsed = write s.spendTagUsed (f.spentTag.map (·, true))
  spendTagRpCommitments : s'.spendTagRpCommitments = s.spendTagRpCommitments
  ownershipCommitments : s'.ownershipCommitments =
    write s.ownershipCommitments (f.record.map fun r => (r.1, some r.2))
  ownershipUsed : s'.ownershipUsed = write s.ownershipUsed (f.consumed.map (·, true))
  rwaPrices : s'.rwaPrices = write s.rwaPrices f.price
  accessKeyConfigs : s'.accessKeyConfigs =
    write s.accessKeyConfigs (f.app.map fun a => (a.1, some a.2))
  sent : s'.sent = s.sent ++ f.message.toList
  tree : TreeEffect T s s' f.leaf

theorem sameOutside_payFromPool {account : List UInt8} {amount : UInt64}
    (h : payFromPool T s account amount = .ok s') : SameOutside s s' := by
  obtain ⟨_, _, _, _, rfl⟩ := payFromPool_eq_ok.1 h
  constructor <;> rfl

theorem treeEffect_of_v2Insert {leaf : U8Array 32} (h : v2Insert T s leaf = .ok s') :
    TreeEffect T s s' (some leaf) := by
  obtain ⟨hnew, frontier, newRoot, hleaf, rfl⟩ := v2Insert_eq_ok.1 h
  exact ⟨hnew, hleaf, rfl, rfl⟩

theorem TreeEffect.trans_same {s₁ : State L} {leaf : Option (U8Array 32)}
    (h : TreeEffect T s s₁ leaf) (hsame : SameOutside s₁ s') : TreeEffect T s s' leaf := by
  cases leaf <;> simpa only [TreeEffect, hsame.fields] using h

/-- A call that succeeds changes the state by its footprint. -/
theorem effect_of_apply {x : Extrinsic A} (h : apply T s x = .ok s') :
    Effect T s s' (x.2.footprint s) := by
  obtain ⟨o, call⟩ := x
  cases call with
  | depositPublic c rp rpc t hints => simp [apply, dispatch, depositPublic] at h
  | purchaseRwa p pi =>
      obtain ⟨-, inputs, rp, hspend, rfl⟩ := purchaseRwa_eq_ok.1 h
      have hsame : SameOutside _ (rwaPurchased T s inputs rp) :=
        sameOutside_of_withoutNotes (withoutNotes_rwaPurchased inputs rp)
      constructor <;>
        simp [Call.footprint, hspend.decoded, RwaPurchaseInputs.footprint, write, TreeEffect,
          State.depositEvent, State.send, hsame.fields]
  | purchaseAccess p pi =>
      obtain ⟨-, inputs, cfg, rp, -, hspend, s₁, hpay, rfl⟩ := purchaseAccess_eq_ok.1 h
      have hsame : SameOutside _ (accessPurchased T s inputs rp) :=
        sameOutside_of_withoutNotes (withoutNotes_accessPurchased inputs rp)
      have hpaid : SameOutside _ s₁ := sameOutside_payFromPool hpay
      constructor <;>
        simp [Call.footprint, hspend.decoded, RwaPurchaseInputs.accessFootprint, write, TreeEffect,
          State.depositEvent, State.send, hsame.fields, hpaid.fields]
  | withdrawPrivate p pi =>
      obtain ⟨-, inputs, hdec, -, -, -, -, s₁, hpay, rfl⟩ := withdrawPrivate_eq_ok.1 h
      have hpaid : SameOutside _ s₁ := sameOutside_payFromPool hpay
      constructor <;> simp [Call.footprint, hdec, write, TreeEffect, State.depositEvent,
        hpaid.fields]
  | relistPrivate inputs =>
      obtain ⟨-, change, hrelist, s₁, leaves, hins, rfl⟩ := relistPrivate_eq_ok.1 h
      have hnote : SameOutside (relistConsumed s inputs) s₁ := by
        obtain ⟨-, -, rfl⟩ := doInsertNote_eq_some.1 hins
        constructor <;> rfl
      have hsame : SameOutside s₁ (insertRelistChange T s₁ change leaves) :=
        sameOutside_of_withoutNotes (withoutNotes_insertRelistChange change leaves)
      constructor <;>
        simp [Call.footprint, RelistInputs.footprint, write, TreeEffect, relistRecorded,
          State.depositEvent, State.send, hsame.fields, hnote.fields, relistConsumed]
  | setRwaPrice id price =>
      have h : setRwaPrice s o id price = .ok s' := h
      simp only [setRwaPrice, bind_eq_ok, pure_eq_ok] at h
      obtain ⟨_, -, rfl⟩ := h
      constructor <;> simp [Call.footprint, write, TreeEffect, State.depositEvent]
  | setAccessConfig id price acc =>
      have h : setAccessConfig s o id price acc = .ok s' := h
      simp only [setAccessConfig, bind_eq_ok, pure_eq_ok] at h
      obtain ⟨_, -, rfl⟩ := h
      constructor <;> simp [Call.footprint, write, TreeEffect, State.depositEvent]
  | purchaseAccessV2 auth pi p =>
      obtain ⟨-, inputs, cfg, hdec, -, -, hspend, s₁, hins, s₂, hpay, rfl⟩ :=
        purchaseAccessV2_eq_ok.1 h
      have hpaid : SameOutside s₁ s₂ := sameOutside_payFromPool hpay
      have htree : TreeEffect T (markNullifier s inputs.nullifier) s₂ (some inputs.changeLeaf) :=
        (treeEffect_of_v2Insert hins).trans_same hpaid
      obtain ⟨-, frontier, newRoot, -, rfl⟩ := v2Insert_eq_ok.1 hins
      constructor
      case tree =>
        simp only [Call.footprint, hdec, Option.elim]
        exact htree
      all_goals simp [Call.footprint, hdec, SpendPublicV2.accessFootprint, write,
        State.depositEvent, State.send, markNullifier, hpaid.fields]
  | depositV2 leaf amount p hints =>
      obtain ⟨_, -, -, ledger, -, s₁, hins, rfl⟩ := depositV2_eq_ok.1 h
      have htree : TreeEffect T { s with ledger } s₁ (some leaf) := treeEffect_of_v2Insert hins
      obtain ⟨-, frontier, newRoot, -, rfl⟩ := v2Insert_eq_ok.1 hins
      constructor
      case tree => exact htree
      all_goals simp [Call.footprint, write, State.depositEvent]
  | purchaseRwaV2 auth pi p =>
      obtain ⟨-, inputs, hdec, -, hspend, s₁, hins, rfl⟩ := purchaseRwaV2_eq_ok.1 h
      have htree : TreeEffect T (markNullifier s inputs.nullifier) s₁ (some inputs.changeLeaf) :=
        treeEffect_of_v2Insert hins
      obtain ⟨-, frontier, newRoot, -, rfl⟩ := v2Insert_eq_ok.1 hins
      constructor
      case tree =>
        simp only [Call.footprint, hdec, Option.elim]
        exact htree
      all_goals simp [Call.footprint, hdec, SpendPublicV2.footprint, write, State.depositEvent,
        State.send, markNullifier]
  | withdrawV2 auth pi p =>
      obtain ⟨-, inputs, hdec, hspend, s₁, hpay, rfl⟩ := withdrawV2_eq_ok.1 h
      have hpaid : SameOutside _ s₁ := sameOutside_payFromPool hpay
      constructor <;>
        simp [Call.footprint, hdec, write, TreeEffect, State.depositEvent, markNullifier,
          hpaid.fields]

/-- A nullifier that a call marks was not marked before. -/
theorem nullifier_fresh {x : Extrinsic A} (h : apply T s x = .ok s') {n : U8Array 32}
    (hn : (x.2.footprint s).nullifier = some n) : s.nullifierUsed n = false := by
  obtain ⟨o, call⟩ := x
  cases call with
  | purchaseRwa p pi =>
      obtain ⟨-, inputs, rp, hspend, -⟩ := purchaseRwa_eq_ok.1 h
      rw [Call.footprint, hspend.decoded] at hn
      cases hn
      exact hspend.fresh
  | purchaseAccess p pi =>
      obtain ⟨-, inputs, cfg, rp, -, hspend, -⟩ := purchaseAccess_eq_ok.1 h
      rw [Call.footprint, hspend.decoded] at hn
      cases hn
      exact hspend.fresh
  | purchaseAccessV2 auth pi p =>
      obtain ⟨-, inputs, cfg, hdec, -, -, hspend, -⟩ := purchaseAccessV2_eq_ok.1 h
      rw [Call.footprint, hdec] at hn
      cases hn
      exact hspend.fresh
  | purchaseRwaV2 auth pi p =>
      obtain ⟨-, inputs, hdec, -, hspend, -⟩ := purchaseRwaV2_eq_ok.1 h
      rw [Call.footprint, hdec] at hn
      cases hn
      exact hspend.fresh
  | withdrawV2 auth pi p =>
      obtain ⟨-, inputs, hdec, hspend, -⟩ := withdrawV2_eq_ok.1 h
      rw [Call.footprint, hdec] at hn
      cases hn
      exact hspend.fresh
  | withdrawPrivate p pi =>
      obtain ⟨-, inputs, hdec, -⟩ := withdrawPrivate_eq_ok.1 h
      rw [Call.footprint, hdec] at hn
      cases hn
  | _ => cases hn

/-- A spend tag that a call marks was not marked before. -/
theorem spentTag_fresh {x : Extrinsic A} (h : apply T s x = .ok s') {t : U8Array 32}
    (ht : (x.2.footprint s).spentTag = some t) : s.spendTagUsed t = false := by
  obtain ⟨o, call⟩ := x
  cases call with
  | purchaseRwa p pi =>
      obtain ⟨-, i, rp, hspend, -⟩ := purchaseRwa_eq_ok.1 h
      rw [Call.footprint, hspend.decoded] at ht
      cases ht
      exact hspend.unused
  | purchaseAccess p pi =>
      obtain ⟨-, i, cfg, rp, -, hspend, -⟩ := purchaseAccess_eq_ok.1 h
      rw [Call.footprint, hspend.decoded] at ht
      cases ht
      exact hspend.unused
  | withdrawPrivate p pi =>
      obtain ⟨-, i, hdec, hunused, -⟩ := withdrawPrivate_eq_ok.1 h
      rw [Call.footprint, hdec] at ht
      cases ht
      exact hunused
  | relistPrivate i =>
      obtain ⟨-, change, hrelist, -⟩ := relistPrivate_eq_ok.1 h
      cases ht
      exact hrelist.unused
  | purchaseRwaV2 auth pi p | purchaseAccessV2 auth pi p | withdrawV2 auth pi p =>
      obtain ⟨i, -, hi⟩ := exists_of_elim Footprint.spentTag rfl ht
      cases hi
  | _ => cases ht

/-- An ownership record that a call consumes was not consumed before. -/
theorem consumed_fresh {x : Extrinsic A} (h : apply T s x = .ok s') {tx : U8Array 16}
    (htx : (x.2.footprint s).consumed = some tx) : s.ownershipUsed tx = false := by
  obtain ⟨o, call⟩ := x
  obtain ⟨i, rfl⟩ := relistPrivate_of_consumed htx
  obtain ⟨-, change, hrelist, -⟩ := relistPrivate_eq_ok.1 h
  cases htx
  exact hrelist.unsold

theorem nullifierUsed_of_nullifier {f : Footprint} (h : Effect T s s' f) {n : U8Array 32}
    (hn : f.nullifier = some n) : s'.nullifierUsed n = true := by
  rw [h.nullifierUsed, hn]
  simp [write]

theorem nullifierUsed_mono {f : Footprint} (h : Effect T s s' f) {n : U8Array 32}
    (hn : s.nullifierUsed n = true) : s'.nullifierUsed n = true := by
  rw [h.nullifierUsed]
  cases f.nullifier with
  | none => exact hn
  | some n' =>
      by_cases heq : n = n'
      · simp [write, heq]
      · simpa [write, heq] using hn

/-- The change note that a relist asks for. -/
def RelistInputs.changeNote (inputs : RelistInputs) : Option (U8Array 32 × U8Array 32) :=
  if 0 < inputs.buyerValue - inputs.price then
    Option.map₂ Prod.mk inputs.changeCommitment inputs.changeSpendTag
  else none

theorem changeNote_of_checkRelistChange {inputs : RelistInputs}
    {change : Option (U8Array 32 × U8Array 32)} (h : checkRelistChange T inputs = .ok change) :
    change = inputs.changeNote := by
  unfold checkRelistChange at h
  unfold RelistInputs.changeNote
  by_cases hpos : 0 < inputs.buyerValue - inputs.price
  · rw [if_pos hpos] at h
    split at h
    · rename_i hc ht hv hb
      simp only [bind_eq_ok, ensure_eq_ok, pure_eq_ok, exists_const] at h
      rw [if_pos hpos, hc, ht, ← h.2.2]
      rfl
    · cases h
  · rw [if_neg hpos] at h
    rw [if_neg hpos]
    exact (Except.ok.inj h).symm

/-- The notes that a call registers, in order: commitments with their tags. -/
def Call.registered (s : State L) : Call → List (U8Array 32 × U8Array 32)
  | .purchaseRwa _ pi | .purchaseAccess _ pi =>
      ((RwaPurchaseInputs.decode pi).bind (registeredChange s)).toList
  | .relistPrivate inputs =>
      (inputs.paymentCommitment, inputs.paymentSpendTag) ::
        (inputs.changeNote.filter fun note =>
          note.1 ≠ inputs.paymentCommitment ∧ s.commitmentIndex note.1 = none).toList
  | _ => []

theorem payFromPool_spendTagCommitments {account : List UInt8} {amount : UInt64}
    (h : payFromPool T s account amount = .ok s') :
    s'.spendTagCommitments = s.spendTagCommitments := by
  obtain ⟨_, _, _, _, rfl⟩ := payFromPool_eq_ok.1 h
  rfl

/-- What a relist registers, seen from the state in which its payment note has
joined. -/
theorem registered_relistPrivate {inputs : RelistInputs} {s₁ : State L}
    {leaves : List (U8Array 32)} {change : Option (U8Array 32 × U8Array 32)}
    (hins : doInsertNote T (relistConsumed s inputs) inputs.paymentCommitment
      inputs.paymentSpendTag s.leaves.val = some (s₁, leaves))
    (hbalanced : checkRelistChange T inputs = .ok change) :
    Call.registered s (.relistPrivate inputs) =
      (inputs.paymentCommitment, inputs.paymentSpendTag) ::
        (registeredRelistChange s₁ change).toList := by
  have hchange : change = inputs.changeNote := changeNote_of_checkRelistChange hbalanced
  have hindex : s₁.commitmentIndex = insertAt s.commitmentIndex inputs.paymentCommitment
      (some (UInt32.ofNat s.leaves.val.length)) := by
    obtain ⟨-, -, rfl⟩ := doInsertNote_eq_some.1 hins
    rfl
  have hfilter : registeredRelistChange s₁ change = inputs.changeNote.filter fun note =>
      note.1 ≠ inputs.paymentCommitment ∧ s.commitmentIndex note.1 = none := by
    rw [registeredRelistChange, hchange, hindex]
    congr 1
    funext note
    by_cases hc : note.1 = inputs.paymentCommitment
    · simp [hc]
    · cases hn : s.commitmentIndex note.1 <;> simp [hc, hn]
  rw [hfilter]
  rfl

theorem relistPrivate_spendTagCommitments {inputs : RelistInputs}
    (h : relistPrivate T s o inputs = .ok s') :
    s'.spendTagCommitments =
      registerNotes s.spendTagCommitments (Call.registered s (.relistPrivate inputs)) := by
  obtain ⟨-, change, hrelist, s₁, leaves, hins, rfl⟩ := relistPrivate_eq_ok.1 h
  have htags : s₁.spendTagCommitments =
      insertAt s.spendTagCommitments inputs.paymentSpendTag (some inputs.paymentCommitment) := by
    obtain ⟨-, -, rfl⟩ := doInsertNote_eq_some.1 hins
    rfl
  calc (relistRecorded (insertRelistChange T s₁ change leaves) inputs).spendTagCommitments
      = registerNotes s₁.spendTagCommitments (registeredRelistChange s₁ change).toList :=
        insertRelistChange_spendTagCommitments change leaves
    _ = registerNotes s.spendTagCommitments (Call.registered s (.relistPrivate inputs)) := by
        rw [htags, registered_relistPrivate hins hrelist.balanced]
        rfl

/-- What a call does to the registry of tags. -/
theorem spendTagCommitments_of_apply {x : Extrinsic A} (h : apply T s x = .ok s') :
    s'.spendTagCommitments = registerNotes s.spendTagCommitments (x.2.registered s) := by
  obtain ⟨o, call⟩ := x
  cases call with
  | depositPublic c rp rpc t hints => simp [apply, dispatch, depositPublic] at h
  | purchaseRwa p pi =>
      obtain ⟨-, inputs, rp, hspend, rfl⟩ := purchaseRwa_eq_ok.1 h
      simp only [Call.registered, hspend.decoded]
      exact insertChange_spendTagCommitments inputs rp
  | purchaseAccess p pi =>
      obtain ⟨-, inputs, cfg, rp, -, hspend, s₁, hpay, rfl⟩ := purchaseAccess_eq_ok.1 h
      simp only [Call.registered, hspend.decoded]
      exact (payFromPool_spendTagCommitments hpay).trans
        (insertChange_spendTagCommitments inputs rp)
  | withdrawPrivate p pi =>
      obtain ⟨-, inputs, -, -, -, -, -, s₁, hpay, rfl⟩ := withdrawPrivate_eq_ok.1 h
      have hpaid := payFromPool_spendTagCommitments hpay
      exact hpaid
  | relistPrivate inputs => exact relistPrivate_spendTagCommitments h
  | setRwaPrice id price =>
      obtain ⟨_, -, hs⟩ := bind_eq_ok.1 h
      cases hs
      rfl
  | setAccessConfig id price acc =>
      obtain ⟨_, -, hs⟩ := bind_eq_ok.1 h
      cases hs
      rfl
  | purchaseAccessV2 auth pi p =>
      obtain ⟨-, inputs, cfg, -, -, -, -, s₁, hins, s₂, hpay, rfl⟩ :=
        purchaseAccessV2_eq_ok.1 h
      obtain ⟨-, frontier, newRoot, -, rfl⟩ := v2Insert_eq_ok.1 hins
      have hpaid := payFromPool_spendTagCommitments hpay
      exact hpaid
  | depositV2 leaf amount p hints =>
      obtain ⟨_, -, -, ledger, -, s₁, hins, rfl⟩ := depositV2_eq_ok.1 h
      obtain ⟨-, frontier, newRoot, -, rfl⟩ := v2Insert_eq_ok.1 hins
      rfl
  | purchaseRwaV2 auth pi p =>
      obtain ⟨-, inputs, -, -, -, s₁, hins, rfl⟩ := purchaseRwaV2_eq_ok.1 h
      obtain ⟨-, frontier, newRoot, -, rfl⟩ := v2Insert_eq_ok.1 hins
      rfl
  | withdrawV2 auth pi p =>
      obtain ⟨-, inputs, -, -, s₁, hpay, rfl⟩ := withdrawV2_eq_ok.1 h
      have hpaid := payFromPool_spendTagCommitments hpay
      exact hpaid

end NullaRelay.ProofHub
