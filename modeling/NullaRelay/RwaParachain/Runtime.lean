import NullaRelay.RwaParachain.Purchases

/-!
# The registry and the marketplace together

One step of the parachain is a call of either pallet. The registry keeps every asset,
and a sold one stays sold, as long as a new asset gets an id that has none; the
marketplace changes the listing of one asset at a time, and `Trade.Moves` says from
what to what.
-/

namespace NullaRelay.RwaParachain

open NullaRelay.Frame

namespace Registry

variable {s s' : State} {o : Origin AccountId} {a : UInt32}

/-- The asset exists and is sold. -/
def Sold (s : State) (a : UInt32) : Prop :=
  ∃ asset, s.assets a = some asset ∧ asset.isSold = true

/-- No asset has the next id or one above it. -/
def Vacant (s : State) : Prop := ∀ a, s.nextAssetId.toNat ≤ a.toNat → s.assets a = none

/-- What every call but a registration keeps: which ids have an asset, and the sales. -/
structure Kept (s s' : State) : Prop where
  next : s'.nextAssetId = s.nextAssetId
  vacant : ∀ a, s.assets a = none → s'.assets a = none
  sold : ∀ a, Sold s a → Sold s' a

def Call.registers : Call → Bool
  | .registerAsset .. => true
  | _ => false

theorem mutateAsset_eq_ok {f : RWAAsset → Except (DispatchError Error) RWAAsset} :
    s.mutateAsset a f = .ok s' ↔ ∃ asset asset', s.assets a = some asset ∧
      f asset = .ok asset' ∧
      s' = { s with assets := insertAt s.assets a (some asset') } := by
  simp only [State.mutateAsset, bind_eq_ok, okOr_eq_ok, pure_eq_ok, @eq_comm _ s']
  constructor
  · rintro ⟨asset, hasset, asset', hf, hs⟩
    exact ⟨asset, asset', hasset, hf, hs⟩
  · rintro ⟨asset, asset', hasset, hf, hs⟩
    exact ⟨asset, hasset, asset', hf, hs⟩

/-- An edit of one asset that does not undo its sale. -/
theorem Kept.of_mutateAsset {f : RWAAsset → Except (DispatchError Error) RWAAsset}
    (h : s.mutateAsset a f = .ok s')
    (hf : ∀ asset asset', f asset = .ok asset' → asset.isSold = true → asset'.isSold = true) :
    Kept s s' := by
  obtain ⟨asset, asset', hasset, hedit, rfl⟩ := mutateAsset_eq_ok.1 h
  refine ⟨rfl, fun b hb => ?_, fun b hb => ?_⟩
  · have hne : b ≠ a := by
      rintro rfl
      rw [hasset] at hb
      cases hb
    simpa [Function.update_of_ne hne] using hb
  · obtain ⟨old, hold, hsold⟩ := hb
    by_cases hba : b = a
    · subst hba
      obtain rfl := Option.some.inj (hasset.symm.trans hold)
      exact ⟨asset', Function.update_self .., hf asset asset' hedit hsold⟩
    · exact ⟨old, (Function.update_of_ne hba ..).trans hold, hsold⟩

theorem kept_of_internalMarkSold (h : internalMarkSold s a = .ok s') : Kept s s' := by
  refine Kept.of_mutateAsset h fun asset asset' hedit _ => ?_
  simp only [bind_eq_ok, ensure_eq_ok, pure_eq_ok, exists_const] at hedit
  obtain ⟨-, rfl⟩ := hedit
  rfl

theorem kept_of_internalRelease (h : internalRelease s a = .ok s') : Kept s s' := by
  refine Kept.of_mutateAsset h fun asset asset' hedit hsold => ?_
  rw [pure_eq_ok] at hedit
  rw [← hedit]
  exact hsold

theorem sold_of_internalMarkSold (h : internalMarkSold s a = .ok s') : Sold s' a := by
  obtain ⟨asset, asset', -, hedit, rfl⟩ := mutateAsset_eq_ok.1 h
  simp only [bind_eq_ok, ensure_eq_ok, pure_eq_ok, exists_const] at hedit
  obtain ⟨-, rfl⟩ := hedit
  exact ⟨_, Function.update_self .., rfl⟩

theorem Kept.deposit (h : Kept s s') (e : Event) : Kept s (s'.deposit e) :=
  ⟨h.next, h.vacant, h.sold⟩

theorem kept_of_dispatch {call : Call} (h : dispatch s o call = .ok s')
    (hcall : call.registers = false) : Kept s s' := by
  cases call with
  | registerAsset => cases hcall
  | lockForSale a =>
      simp only [dispatch, lockForSale, bind_eq_ok, pure_eq_ok] at h
      obtain ⟨-, -, t, hmut, rfl⟩ := h
      refine (Kept.of_mutateAsset hmut fun asset asset' hedit hsold => ?_).deposit _
      simp only [bind_eq_ok, ensure_eq_ok, pure_eq_ok, exists_const] at hedit
      rw [← hedit.2]
      exact hsold
  | markSold a =>
      simp only [dispatch, markSold, bind_eq_ok, pure_eq_ok] at h
      obtain ⟨-, -, t, hmut, rfl⟩ := h
      exact (kept_of_internalMarkSold hmut).deposit _
  | releaseAfterRedemption a =>
      simp only [dispatch, releaseAfterRedemption, bind_eq_ok, pure_eq_ok] at h
      obtain ⟨-, -, t, hmut, rfl⟩ := h
      refine (Kept.of_mutateAsset hmut fun asset asset' hedit hsold => ?_).deposit _
      simp only [bind_eq_ok, ensure_eq_ok, pure_eq_ok, exists_const] at hedit
      rw [← hedit.2]
      exact hsold
  | setCompanyInfo name disclaimer =>
      simp only [dispatch, setCompanyInfo, bind_eq_ok, pure_eq_ok] at h
      obtain ⟨-, -, rfl⟩ := h
      exact ⟨rfl, fun _ => id, fun _ => id⟩

theorem registered_of_dispatch {call : Call} (h : dispatch s o call = .ok s')
    (hcall : call.registers = true) :
    ∃ asset, s'.assets = insertAt s.assets s.nextAssetId (some asset) ∧
      s'.nextAssetId = saturatingSucc s.nextAssetId := by
  cases call with
  | registerAsset owner name description category usdValueCents metadata =>
      simp only [dispatch, registerAsset, bind_eq_ok, pure_eq_ok] at h
      obtain ⟨-, -, rfl⟩ := h
      exact ⟨_, rfl, rfl⟩
  | _ => cases hcall

/-- A sale is never undone, unless a new asset takes the id of one that exists. -/
theorem sold_of_dispatch {call : Call} (h : dispatch s o call = .ok s')
    (hfree : call.registers = true → s.assets s.nextAssetId = none) (hsold : Sold s a) :
    Sold s' a := by
  cases hcall : call.registers with
  | false => exact (kept_of_dispatch h hcall).sold a hsold
  | true =>
      obtain ⟨asset, hassets, -⟩ := registered_of_dispatch h hcall
      obtain ⟨old, hold, hmark⟩ := hsold
      have hne : a ≠ s.nextAssetId := by
        rintro rfl
        rw [hfree hcall] at hold
        cases hold
      exact ⟨old, by rw [hassets, insertAt, Function.update_of_ne hne, hold], hmark⟩

theorem not_sold_of_isAvailableForSale (h : isAvailableForSale s a = true) : ¬ Sold s a := by
  rintro ⟨asset, hasset, hsold⟩
  simp [isAvailableForSale, hasset, hsold] at h

theorem saturatingSucc_toNat {n : UInt32} (h : n.toNat + 1 < 2 ^ 32) :
    (saturatingSucc n).toNat = n.toNat + 1 := by
  rw [saturatingSucc, if_pos h, UInt32.toNat_add]
  exact Nat.mod_eq_of_lt h

/-- A registration takes the next id and leaves the one above it vacant. -/
theorem Vacant.insert (h : Vacant s) (hnext : s.nextAssetId.toNat + 1 < 2 ^ 32)
    {asset : RWAAsset} (hassets : s'.assets = insertAt s.assets s.nextAssetId (some asset))
    (hsucc : s'.nextAssetId = saturatingSucc s.nextAssetId) : Vacant s' := by
  intro b hb
  rw [hsucc, saturatingSucc_toNat hnext] at hb
  have hne : b ≠ s.nextAssetId := by
    rintro rfl
    omega
  rw [hassets, insertAt, Function.update_of_ne hne]
  exact h b (by omega)

theorem genesis_vacant {company : Option CompanyInfo} (assets : List RWAAsset)
    (h : assets.length < 2 ^ 32) :
    (genesis assets company).nextAssetId.toNat = assets.length ∧
      Vacant (genesis assets company) := by
  induction assets using List.reverseRecOn with
  | nil => exact ⟨rfl, fun _ _ => rfl⟩
  | append_singleton assets asset ih =>
      rw [List.length_append, List.length_singleton] at h
      obtain ⟨hnext, hvacant⟩ := ih (by omega)
      have hsucc : (genesis (assets ++ [asset]) company).nextAssetId =
          saturatingSucc (genesis assets company).nextAssetId := by
        rw [genesis, List.foldl_append]
        rfl
      have hassets : (genesis (assets ++ [asset]) company).assets =
          insertAt (genesis assets company).assets (genesis assets company).nextAssetId
            (some asset) := by
        rw [genesis, List.foldl_append]
        rfl
      have hroom : (genesis assets company).nextAssetId.toNat + 1 < 2 ^ 32 := by omega
      refine ⟨?_, hvacant.insert hroom hassets hsucc⟩
      rw [hsucc, saturatingSucc_toNat hroom, hnext, List.length_append, List.length_singleton]

end Registry

namespace Marketplace

variable {cfg : Config} {s s' : State} {o : Origin AccountId} {a : UInt32}

/-- The start of the chain: the assets of the genesis configuration, nothing listed. -/
def State.genesis (assets : List Registry.RWAAsset) (company : Option Registry.CompanyInfo) :
    State where
  registry := Registry.genesis assets company
  listings _ := none
  redemptionClaims _ := none
  nullifierUsed _ := false
  proofHubPurchases _ := none
  ownershipRedeemed _ := false
  events := []

/-- A call of either pallet. -/
inductive RuntimeCall
  | registry (call : Registry.Call)
  | marketplace (call : Call)

variable (cfg) in
/-- One call with its origin. -/
def step (s : State) : Origin AccountId × RuntimeCall → Result
  | (o, .registry call) => s.onRegistry fun r => Registry.dispatch r o call
  | (o, .marketplace call) => dispatch cfg s o call

/-- What a call does with a listing. -/
inductive Trade
  | list
  | cancel
  | buy
  | redeem
  deriving DecidableEq

namespace RuntimeCall

def registers : RuntimeCall → Bool
  | .registry call => call.registers
  | .marketplace _ => false

/-- The trade of a call, and the asset it is about. -/
def trade : RuntimeCall → Option (Trade × UInt32)
  | .marketplace (.listAsset a _ _) => some (.list, a)
  | .marketplace (.cancelListing a) => some (.cancel, a)
  | .marketplace (.buyPrivately a _) => some (.buy, a)
  | .marketplace (.redeemAsset a _ _) => some (.redeem, a)
  | _ => none

/-- The asset that a call buys privately. -/
def bought : RuntimeCall → Option UInt32
  | .marketplace (.buyPrivately a _) => some a
  | _ => none

/-- The asset whose listing a call redeems. -/
def redeemed : RuntimeCall → Option UInt32
  | .marketplace (.redeemAsset a _ _) => some a
  | _ => none

/-- The nullifier that a redemption uses. -/
def nullifier : RuntimeCall → Option (U8Array 32)
  | .marketplace (.redeemAsset _ n _) => some n
  | _ => none

theorem trade_of_bought {call : RuntimeCall} (h : call.bought = some a) :
    call.trade = some (.buy, a) := by
  match call, h with
  | .marketplace (.buyPrivately ..), rfl => rfl

theorem bought_of_trade {call : RuntimeCall} (h : call.trade = some (.buy, a)) :
    call.bought = some a := by
  match call, h with
  | .marketplace (.buyPrivately ..), rfl => rfl

theorem trade_of_redeemed {call : RuntimeCall} (h : call.redeemed = some a) :
    call.trade = some (.redeem, a) := by
  match call, h with
  | .marketplace (.redeemAsset ..), rfl => rfl

end RuntimeCall

/-- An asset of the registry is sold. -/
abbrev Sold (s : State) (a : UInt32) : Prop := Registry.Sold s.registry a

/-- A registration finds no asset under the id it takes. -/
def FreeSlot (s : State) (i : Origin AccountId × RuntimeCall) : Prop :=
  i.2.registers = true → s.registry.assets s.registry.nextAssetId = none

/-- The listing before and after a trade, and whether the asset was sold and is sold. -/
inductive Trade.Moves (sold sold' : Prop) : Trade → Option Listing → Listing → Prop
  | list {l : Option Listing} {l' : Listing} (unsold : ¬ sold) (active : l'.status = .active) :
      Moves sold sold' .list l l'
  | cancel {l l' : Listing} (active : l.status = .active) (cancelled : l'.status = .cancelled) :
      Moves sold sold' .cancel (some l) l'
  | buy {l l' : Listing} (active : l.status = .active) (unsold : ¬ sold) (marked : sold')
      (bought : l'.status = .soldPrivately) (hash : l'.entryCommitmentHash.isSome = true) :
      Moves sold sold' .buy (some l) l'
  | redeem {l l' : Listing} (bought : l.status = .soldPrivately)
      (redeemed : l'.status = .redeemed)
      (hash : l'.entryCommitmentHash = l.entryCommitmentHash) :
      Moves sold sold' .redeem (some l) l'

/-- What a call without a trade leaves as it was. -/
theorem listings_of_no_trade {i : Origin AccountId × RuntimeCall} (h : step cfg s i = .ok s')
    (htrade : i.2.trade = none) : s'.listings = s.listings := by
  obtain ⟨o, call⟩ := i
  cases call with
  | registry call =>
      rw [step, onRegistry_eq_ok] at h
      obtain ⟨r, -, rfl⟩ := h
      rfl
  | marketplace call =>
      cases call with
      | xcmRecordPurchase =>
          obtain ⟨-, -, rfl⟩ := xcmRecordPurchase_eq_ok.1 h
          rfl
      | redeemRwaOwnership =>
          obtain ⟨_, _, -, -, -, -, rfl⟩ := redeemRwaOwnership_eq_ok.1 h
          rfl
      | _ => cases htrade

/-- What a trade does: one listing moves, and no other. -/
theorem listings_of_trade {i : Origin AccountId × RuntimeCall} (h : step cfg s i = .ok s')
    {t : Trade} (htrade : i.2.trade = some (t, a)) :
    ∃ l', s'.listings = insertAt s.listings a (some l') ∧
      t.Moves (Sold s a) (Sold s' a) (s.listings a) l' := by
  obtain ⟨o, call⟩ := i
  match call, htrade with
  | .marketplace (.listAsset a seller priceHint), rfl =>
      simp only [step, dispatch, listAsset, bind_eq_ok, ensure_eq_ok, pure_eq_ok] at h
      obtain ⟨-, -, -, havail, rfl⟩ := h
      exact ⟨_, rfl, .list (Registry.not_sold_of_isAvailableForSale havail) rfl⟩
  | .marketplace (.cancelListing a), rfl =>
      simp only [step, dispatch, cancelListing, bind_eq_ok, okOr_eq_ok, ensure_eq_ok,
        onRegistry_eq_ok, pure_eq_ok] at h
      obtain ⟨-, -, l, hl, -, hactive, -, ⟨r, -, rfl⟩, rfl⟩ := h
      refine ⟨_, rfl, ?_⟩
      rw [hl]
      exact .cancel hactive rfl
  | .marketplace (.buyPrivately a hash), rfl =>
      simp only [step, dispatch, buyPrivately, bind_eq_ok, okOr_eq_ok, ensure_eq_ok,
        onRegistry_eq_ok, pure_eq_ok] at h
      obtain ⟨-, -, l, hl, -, hactive, -, havail, -, ⟨r, hr, rfl⟩, rfl⟩ := h
      refine ⟨_, rfl, ?_⟩
      rw [hl]
      exact .buy hactive (Registry.not_sold_of_isAvailableForSale havail)
        (Registry.sold_of_internalMarkSold hr) rfl rfl
  | .marketplace (.redeemAsset a n contact), rfl =>
      simp only [step, dispatch, redeemAsset, bind_eq_ok, okOr_eq_ok, ensure_eq_ok,
        onRegistry_eq_ok, pure_eq_ok] at h
      obtain ⟨-, -, -, -, l, hl, -, hbought, -, ⟨r, -, rfl⟩, rfl⟩ := h
      refine ⟨_, rfl, ?_⟩
      rw [hl]
      exact .redeem hbought rfl rfl

/-- The marketplace reaches the registry through edits that keep the assets. -/
theorem kept_of_step {i : Origin AccountId × RuntimeCall} (h : step cfg s i = .ok s')
    (hcall : i.2.registers = false) : Registry.Kept s.registry s'.registry := by
  have hsame : Registry.Kept s.registry s.registry := ⟨rfl, fun _ => id, fun _ => id⟩
  obtain ⟨o, call⟩ := i
  cases call with
  | registry call =>
      rw [step, onRegistry_eq_ok] at h
      obtain ⟨r, hr, rfl⟩ := h
      exact Registry.kept_of_dispatch hr hcall
  | marketplace call =>
      cases call with
      | listAsset =>
          simp only [step, dispatch, listAsset, bind_eq_ok, pure_eq_ok] at h
          obtain ⟨-, -, -, -, rfl⟩ := h
          exact hsame
      | cancelListing =>
          simp only [step, dispatch, cancelListing, bind_eq_ok, pure_eq_ok, onRegistry_eq_ok] at h
          obtain ⟨-, -, l, -, -, -, -, ⟨r, hr, rfl⟩, rfl⟩ := h
          exact Registry.kept_of_internalRelease hr
      | buyPrivately =>
          simp only [step, dispatch, buyPrivately, bind_eq_ok, pure_eq_ok, onRegistry_eq_ok] at h
          obtain ⟨-, -, l, -, -, -, -, -, -, ⟨r, hr, rfl⟩, rfl⟩ := h
          exact Registry.kept_of_internalMarkSold hr
      | redeemAsset =>
          simp only [step, dispatch, redeemAsset, bind_eq_ok, pure_eq_ok, onRegistry_eq_ok] at h
          obtain ⟨who, -, -, -, l, -, -, -, -, ⟨r, hr, rfl⟩, rfl⟩ := h
          exact Registry.kept_of_internalRelease hr
      | xcmRecordPurchase =>
          obtain ⟨-, -, rfl⟩ := xcmRecordPurchase_eq_ok.1 h
          exact hsame
      | redeemRwaOwnership =>
          obtain ⟨_, _, -, -, -, -, rfl⟩ := redeemRwaOwnership_eq_ok.1 h
          exact hsame

theorem sold_of_step {i : Origin AccountId × RuntimeCall} (h : step cfg s i = .ok s')
    (hfree : FreeSlot s i) (hsold : Sold s a) : Sold s' a := by
  cases hcall : i.2.registers with
  | false => exact (kept_of_step h hcall).sold a hsold
  | true =>
      obtain ⟨o, call⟩ := i
      cases call with
      | registry call =>
          rw [step, onRegistry_eq_ok] at h
          obtain ⟨r, hr, rfl⟩ := h
          exact Registry.sold_of_dispatch hr hfree hsold
      | marketplace => cases hcall

/-- A listing moves by a trade of its asset, and only so. -/
theorem listing_of_step {i : Origin AccountId × RuntimeCall} (h : step cfg s i = .ok s')
    (a : UInt32) :
    s'.listings a = s.listings a ∨ ∃ t l', i.2.trade = some (t, a) ∧
      s'.listings a = some l' ∧ t.Moves (Sold s a) (Sold s' a) (s.listings a) l' := by
  cases htrade : i.2.trade with
  | none => exact .inl (congrFun (listings_of_no_trade h htrade) a)
  | some p =>
      obtain ⟨t, b⟩ := p
      obtain ⟨l', hl', hmoves⟩ := listings_of_trade h htrade
      by_cases hab : a = b
      · subst hab
        exact .inr ⟨t, l', rfl, by rw [hl', insertAt, Function.update_self], hmoves⟩
      · exact .inl (by rw [hl', insertAt, Function.update_of_ne hab])

/-- A redemption uses a nullifier that is not used, and no other call uses one. -/
theorem nullifierUsed_of_step {i : Origin AccountId × RuntimeCall} (h : step cfg s i = .ok s') :
    s'.nullifierUsed =
        i.2.nullifier.elim s.nullifierUsed (fun n => insertAt s.nullifierUsed n true) ∧
      ∀ n ∈ i.2.nullifier, s.nullifierUsed n = false := by
  have hnone : ∀ n ∈ (none : Option (U8Array 32)), s.nullifierUsed n = false := by
    rintro n ⟨⟩
  obtain ⟨o, call⟩ := i
  cases call with
  | registry call =>
      rw [step, onRegistry_eq_ok] at h
      obtain ⟨r, -, rfl⟩ := h
      exact ⟨rfl, hnone⟩
  | marketplace call =>
      cases call with
      | listAsset =>
          simp only [step, dispatch, listAsset, bind_eq_ok, pure_eq_ok] at h
          obtain ⟨-, -, -, -, rfl⟩ := h
          exact ⟨rfl, hnone⟩
      | cancelListing =>
          simp only [step, dispatch, cancelListing, bind_eq_ok, pure_eq_ok, onRegistry_eq_ok] at h
          obtain ⟨-, -, -, -, -, -, -, ⟨-, -, rfl⟩, rfl⟩ := h
          exact ⟨rfl, hnone⟩
      | buyPrivately =>
          simp only [step, dispatch, buyPrivately, bind_eq_ok, pure_eq_ok, onRegistry_eq_ok] at h
          obtain ⟨-, -, -, -, -, -, -, -, -, ⟨-, -, rfl⟩, rfl⟩ := h
          exact ⟨rfl, hnone⟩
      | redeemAsset b n contact =>
          simp only [step, dispatch, redeemAsset, bind_eq_ok, pure_eq_ok, ensure_eq_ok,
            onRegistry_eq_ok] at h
          obtain ⟨-, -, -, hfresh, -, -, -, -, -, ⟨-, -, rfl⟩, rfl⟩ := h
          refine ⟨rfl, ?_⟩
          rintro m ⟨⟩
          exact hfresh
      | xcmRecordPurchase =>
          obtain ⟨-, -, rfl⟩ := xcmRecordPurchase_eq_ok.1 h
          exact ⟨rfl, hnone⟩
      | redeemRwaOwnership =>
          obtain ⟨_, _, -, -, -, -, rfl⟩ := redeemRwaOwnership_eq_ok.1 h
          exact ⟨rfl, hnone⟩

end Marketplace

end NullaRelay.RwaParachain
