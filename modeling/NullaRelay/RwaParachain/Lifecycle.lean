import NullaRelay.RwaParachain.Runtime

/-!
# The life cycle of a listing

A listing is sold only for an asset that is not, and the sale marks the asset. The
mark is never taken away while ids are left for new assets, so a listing that is sold
can only be redeemed, and a redeemed one stays as it is: `list_asset` asks for an
unsold asset, `buy_privately` and `cancel_listing` for an active listing.
-/

namespace NullaRelay.RwaParachain.Marketplace

open NullaRelay.Frame Transition

variable {cfg : Config} {s s' : State} {a : UInt32} {i : Origin AccountId × RuntimeCall}

/-- The listing is sold, redeemed or not. -/
def Listing.Traded (l : Listing) : Prop := l.status = .soldPrivately ∨ l.status = .redeemed

/-- The asset of a sold listing is marked as sold, and the payment is known. -/
def Settled (s : State) : Prop :=
  ∀ a l, s.listings a = some l → l.Traded → Sold s a ∧ l.entryCommitmentHash.isSome = true

/-- The listing of the asset is redeemed. -/
def ListingRedeemed (s : State) (a : UInt32) : Prop :=
  ∃ l, s.listings a = some l ∧ l.status = .redeemed

theorem Settled.step (h : Settled s) (hfree : FreeSlot s i) (hstep : step cfg s i = .ok s') :
    Settled s' := by
  intro a l' hl' htraded
  rcases listing_of_step hstep a with hsame | ⟨t, l₁, -, hl₁, hmoves⟩
  · rw [hsame] at hl'
    obtain ⟨hsold, hhash⟩ := h a l' hl' htraded
    exact ⟨sold_of_step hstep hfree hsold, hhash⟩
  · obtain rfl := Option.some.inj (hl₁.symm.trans hl')
    generalize hold : s.listings a = old at hmoves
    cases hmoves with
    | list unsold active => simp [Listing.Traded, active] at htraded
    | cancel active cancelled => simp [Listing.Traded, cancelled] at htraded
    | buy active unsold marked bought hash => exact ⟨marked, hash⟩
    | redeem bought redeemed hash =>
        obtain ⟨hsold, hhash⟩ := h a _ hold (.inl bought)
        exact ⟨sold_of_step hstep hfree hsold, hash ▸ hhash⟩

/-- No call touches a redeemed listing. -/
theorem ListingRedeemed.step (h : ListingRedeemed s a) (hsettled : Settled s)
    (hstep : step cfg s i = .ok s') : ListingRedeemed s' a := by
  obtain ⟨l, hl, hredeemed⟩ := h
  rcases listing_of_step hstep a with hsame | ⟨t, l', -, -, hmoves⟩
  · exact ⟨l, hsame.trans hl, hredeemed⟩
  · rw [hl] at hmoves
    cases hmoves with
    | list unsold active => exact absurd (hsettled a l hl (.inr hredeemed)).1 unsold
    | cancel active => simp [hredeemed] at active
    | buy active => simp [hredeemed] at active
    | redeem bought => simp [hredeemed] at bought

/-- A listing is sold by a purchase, and redeemed when it is sold. -/
theorem traded_of_step {l' : Listing} (hstep : step cfg s i = .ok s')
    (hl' : s'.listings a = some l') (htraded : l'.Traded) :
    i.2.bought = some a ∨ ∃ l, s.listings a = some l ∧ l.Traded := by
  rcases listing_of_step hstep a with hsame | ⟨t, l₁, htrade, hl₁, hmoves⟩
  · exact .inr ⟨l', hsame ▸ hl', htraded⟩
  · obtain rfl := Option.some.inj (hl₁.symm.trans hl')
    generalize hold : s.listings a = old at hmoves
    cases hmoves with
    | list unsold active => simp [Listing.Traded, active] at htraded
    | cancel active cancelled => simp [Listing.Traded, cancelled] at htraded
    | buy => exact .inl (RuntimeCall.bought_of_trade htrade)
    | redeem bought => exact .inr ⟨_, rfl, .inl bought⟩

/-- What a redemption of a listing finds and leaves. -/
theorem listing_of_redeemed (hstep : step cfg s i = .ok s') (hcall : i.2.redeemed = some a) :
    (∃ l, s.listings a = some l ∧ l.status = .soldPrivately) ∧ ListingRedeemed s' a := by
  obtain ⟨l', hl', hmoves⟩ := listings_of_trade hstep (RuntimeCall.trade_of_redeemed hcall)
  generalize hold : s.listings a = old at hmoves
  cases hmoves with
  | redeem bought redeemed =>
      exact ⟨⟨_, rfl, bought⟩, l', by rw [hl', insertAt, Function.update_self], redeemed⟩

/-- A sale marks the asset. -/
theorem bought_keyMark : KeyMark (step cfg) (fun _ => True) FreeSlot (fun _ i => i.2.bought)
    Sold where
  invariant _ _ _ _ _ _ := trivial
  fresh s i s' a _ _ hstep hcall := by
    obtain ⟨l', -, hmoves⟩ := listings_of_trade hstep (RuntimeCall.trade_of_bought hcall)
    generalize s.listings a = old at hmoves
    cases hmoves with
    | buy active unsold => exact unsold
  marks s i s' a _ _ hstep hcall := by
    obtain ⟨l', -, hmoves⟩ := listings_of_trade hstep (RuntimeCall.trade_of_bought hcall)
    generalize s.listings a = old at hmoves
    cases hmoves with
    | buy active unsold marked => exact marked
  kept _ _ _ _ _ hfree hstep hsold := sold_of_step hstep hfree hsold

/-- A redemption marks the listing. -/
theorem redeemed_keyMark : KeyMark (step cfg) Settled FreeSlot (fun _ i => i.2.redeemed)
    ListingRedeemed where
  invariant _ _ _ h hfree hstep := h.step hfree hstep
  fresh s i s' a _ _ hstep hcall := by
    rintro ⟨l, hl, hredeemed⟩
    obtain ⟨⟨l', hl', hbought⟩, -⟩ := listing_of_redeemed hstep hcall
    obtain rfl := Option.some.inj (hl.symm.trans hl')
    simp [hredeemed] at hbought
  marks _ _ _ _ _ _ hstep hcall := (listing_of_redeemed hstep hcall).2
  kept _ _ _ _ hsettled _ hstep h := h.step hsettled hstep

/-- A redemption marks its nullifier. -/
theorem nullifier_keyMark : KeyMark (step cfg) (fun _ => True) (fun _ _ => True)
    (fun _ i => i.2.nullifier) (fun s n => s.nullifierUsed n = true) where
  invariant _ _ _ _ _ _ := trivial
  fresh s i s' n _ _ hstep hcall := by
    simp [(nullifierUsed_of_step hstep).2 n hcall]
  marks s i s' n _ _ hstep hcall := by
    rw [(nullifierUsed_of_step hstep).1, show i.2.nullifier = some n from hcall]
    exact Function.update_self ..
  kept s i s' n _ _ hstep hused := by
    rw [(nullifierUsed_of_step hstep).1]
    cases i.2.nullifier with
    | none => exact hused
    | some m =>
        by_cases hnm : n = m
        · subst hnm
          exact Function.update_self ..
        · exact (Function.update_of_ne hnm ..).trans hused

/-- The registrations of a history. -/
def registrations (h : List (State × Origin AccountId × RuntimeCall)) : ℕ :=
  h.countP fun e => e.2.2.registers

theorem registered_of_step (hstep : step cfg s i = .ok s') (hcall : i.2.registers = true) :
    ∃ asset, s'.registry.assets =
        insertAt s.registry.assets s.registry.nextAssetId (some asset) ∧
      s'.registry.nextAssetId = Registry.saturatingSucc s.registry.nextAssetId := by
  obtain ⟨o, call⟩ := i
  cases call with
  | registry call =>
      rw [Marketplace.step, onRegistry_eq_ok] at hstep
      obtain ⟨r, hr, rfl⟩ := hstep
      exact Registry.registered_of_dispatch hr hcall
  | marketplace => cases hcall

/-- While ids are left, every registration takes one that no asset has. -/
theorem freeSlot_of_room :
    ∀ (s : State) (calls : List (Origin AccountId × RuntimeCall)),
      Registry.Vacant s.registry →
      s.registry.nextAssetId.toNat + registrations (history (step cfg) s calls) < 2 ^ 32 - 1 →
      ∀ e ∈ history (step cfg) s calls, FreeSlot e.1 e.2
  | s, [], _, _, e, he => by simp at he
  | s, i :: calls, hvacant, hroom, e, he => by
      cases hstep : step cfg s i with
      | error err =>
          rw [history_cons_error hstep] at hroom he
          exact freeSlot_of_room s calls hvacant hroom e he
      | ok s' =>
          rw [history_cons_ok hstep] at hroom he
          rw [registrations, List.countP_cons] at hroom
          have hhead : FreeSlot s i := fun _ => hvacant _ le_rfl
          have htail : Registry.Vacant s'.registry ∧
              s'.registry.nextAssetId.toNat + registrations (history (step cfg) s' calls) <
                2 ^ 32 - 1 := by
            cases hcall : i.2.registers with
            | false =>
                have hkept := kept_of_step hstep hcall
                rw [hcall] at hroom
                rw [hkept.next]
                refine ⟨fun a ha => hkept.vacant a (hvacant a ?_), hroom⟩
                rwa [hkept.next] at ha
            | true =>
                obtain ⟨asset, hassets, hsucc⟩ := registered_of_step hstep hcall
                rw [hcall, if_pos rfl] at hroom
                have hnext : s.registry.nextAssetId.toNat + 1 < 2 ^ 32 := by omega
                refine ⟨hvacant.insert hnext hassets hsucc, ?_⟩
                rw [hsucc, Registry.saturatingSucc_toNat hnext, registrations]
                omega
          rcases List.mem_cons.1 he with rfl | he
          · exact hhead
          · exact freeSlot_of_room s' calls htail.1 htail.2 e he

/-- Every redemption of a listing comes after a purchase of it. -/
def RedeemedAfterBought (h : List (State × Origin AccountId × RuntimeCall)) : Prop :=
  ∀ past e later, h = past ++ e :: later → ∀ a, e.2.2.redeemed = some a →
    ∃ e' ∈ past, e'.2.2.bought = some a

/-- What holds of a run of the chain. -/
structure LifeCycle (cfg : Config) (s : State)
    (calls : List (Origin AccountId × RuntimeCall)) : Prop where
  sold_kept : ∀ past future, calls = past ++ future → ∀ a,
    Sold (run (step cfg) s past) a → Sold (run (step cfg) s calls) a
  bought_once : ((history (step cfg) s calls).filterMap fun e => e.2.2.bought).Nodup
  redeemed_once : ((history (step cfg) s calls).filterMap fun e => e.2.2.redeemed).Nodup
  redeemed_after_bought : RedeemedAfterBought (history (step cfg) s calls)
  settled : ∀ past future, calls = past ++ future → Settled (run (step cfg) s past)
  nullifiers_once : ((history (step cfg) s calls).filterMap fun e => e.2.2.nullifier).Nodup

theorem sold_run (calls : List (Origin AccountId × RuntimeCall))
    (hfree : ∀ e ∈ history (step cfg) s calls, FreeSlot e.1 e.2) (hsold : Sold s a) :
    Sold (run (step cfg) s calls) a :=
  history_invariant (P := fun s _ => Sold s a)
    (fun _ _ _ _ h hi hstep => sold_of_step hstep hi h) s calls [] hsold hfree

/-- Where nothing is sold yet, sold listings come from the purchases of the run. -/
theorem redeemedAfterBought_run (calls : List (Origin AccountId × RuntimeCall))
    (hnone : ∀ a, s.listings a = none) :
    RedeemedAfterBought (history (step cfg) s calls) := by
  have hrun := @history_invariant _ _ _ (step cfg) (fun _ _ => True)
    (fun s past => (∀ a l, s.listings a = some l → l.Traded →
      ∃ e ∈ past, e.2.2.bought = some a) ∧ RedeemedAfterBought past)
    (fun s i s' past hpast _ hstep => by
      obtain ⟨hbought, hafter⟩ := hpast
      refine ⟨fun a l' hl' htraded => ?_, past_append_singleton hafter fun a hcall => ?_⟩
      · rcases traded_of_step hstep hl' htraded with hnow | ⟨l, hl, hold⟩
        · exact ⟨(s, i), by simp, hnow⟩
        · obtain ⟨e, he, hbuy⟩ := hbought a l hl hold
          exact ⟨e, List.mem_append_left _ he, hbuy⟩
      · obtain ⟨⟨l, hl, hstatus⟩, -⟩ := listing_of_redeemed hstep hcall
        exact hbought a l hl (.inl hstatus))
    s calls [] ⟨fun a l hl => by simp [hnone] at hl, fun past e later h => by simp at h⟩
    fun _ _ => trivial
  exact hrun.2

/-- The life cycle of the listings, from every genesis and through every run that
registers fewer assets than there are ids. -/
theorem listing_life_cycle (cfg : Config) (assets : List Registry.RWAAsset)
    (company : Option Registry.CompanyInfo) (calls : List (Origin AccountId × RuntimeCall))
    (hroom : assets.length +
      registrations (history (step cfg) (State.genesis assets company) calls) < 2 ^ 32 - 1) :
    LifeCycle cfg (State.genesis assets company) calls := by
  have hnone : ∀ a, (State.genesis assets company).listings a = none := fun _ => rfl
  have hsettled : Settled (State.genesis assets company) := fun a l hl => by simp [hnone] at hl
  obtain ⟨hnext, hvacant⟩ :=
    @Registry.genesis_vacant company assets (by omega)
  have hfree : ∀ e ∈ history (step cfg) (State.genesis assets company) calls,
      FreeSlot e.1 e.2 := by
    refine freeSlot_of_room _ calls hvacant ?_
    rw [show (State.genesis assets company).registry = Registry.genesis assets company from rfl,
      hnext]
    exact hroom
  refine
    { sold_kept := ?_
      bought_once := bought_keyMark.nodup_history trivial hfree
      redeemed_once := redeemed_keyMark.nodup_history hsettled hfree
      redeemed_after_bought := redeemedAfterBought_run calls hnone
      settled := ?_
      nullifiers_once := nullifier_keyMark.nodup_history trivial fun _ _ => trivial }
  · rintro past future rfl a hsold
    rw [run_append]
    refine sold_run future (fun e he => hfree e ?_) hsold
    rw [history_append]
    exact List.mem_append_right _ he
  · rintro past future rfl
    refine history_invariant (P := fun s _ => Settled s)
      (fun _ _ _ _ h hi hstep => h.step hi hstep) _ past [] hsettled fun e he => hfree e ?_
    rw [history_append]
    exact List.mem_append_left _ he

/-! An office tower, locked at genesis, is listed, bought and redeemed. -/

section Example

def towerAsset : Registry.RWAAsset where
  assetId := 0
  name := BoundedVec.empty
  description := BoundedVec.empty
  category := .realEstate
  usdValueCents := 24000000000
  owner := U8Array.zero 32
  isLocked := true
  isSold := false
  metadata := BoundedVec.empty

/-- ProofHub's account is zero, and so is every hash. -/
def zeroHashConfig : Config where
  proofHubSovereign := U8Array.zero 32
  blake3 _ := U8Array.zero 32

def towerTrade : List (Origin AccountId × RuntimeCall) :=
  [(.root, .marketplace (.listAsset 0 (U8Array.zero 32) 0)),
    (.signed (U8Array.ofNat 32 1), .marketplace (.buyPrivately 0 (U8Array.zero 32))),
    (.signed (U8Array.ofNat 32 1), .marketplace (.redeemAsset 0 (U8Array.zero 32) none))]

theorem tower_life_cycle :
    (history (step zeroHashConfig) (State.genesis [towerAsset] none) towerTrade).length = 3 ∧
      LifeCycle zeroHashConfig (State.genesis [towerAsset] none) towerTrade :=
  ⟨by decide +kernel, listing_life_cycle zeroHashConfig [towerAsset] none towerTrade
    (by decide +kernel)⟩

end Example

end NullaRelay.RwaParachain.Marketplace
