import NullaRelay.RwaParachain.Lifecycle

/-!
# Two paths to one asset

An asset is redeemed by the nullifier of a private purchase of its listing, or by the
blinding of a purchase that ProofHub reported. The first path asks the registry and
marks the asset as sold, the second one asks nothing about it: an asset that is sold on
both paths, or reported under two ids, is redeemed twice. It is redeemed once where
each redemption finds one sale of its asset.
-/

namespace NullaRelay.RwaParachain.Marketplace

open NullaRelay.Frame Transition LittleEndian

variable {cfg : Config} {s s' : State} {a : UInt32} {i : Origin AccountId × RuntimeCall}

/-- The asset id that `redeem_rwa_ownership` reads from the record. -/
def ProofHubPurchaseRecord.assetId (purchase : ProofHubPurchaseRecord) : UInt32 :=
  UInt32.ofNat (leNat (purchase.rwaId.toList.take 4))

/-- The asset that a call redeems, on either path. -/
def redeemedAsset (s : State) : RuntimeCall → Option UInt32
  | .marketplace (.redeemAsset a _ _) => some a
  | .marketplace (.redeemRwaOwnership t _) =>
      (s.proofHubPurchases t).map ProofHubPurchaseRecord.assetId
  | _ => none

/-- No asset is redeemed twice. -/
def RedeemedOnce (h : List (State × Origin AccountId × RuntimeCall)) : Prop :=
  (h.filterMap fun e => redeemedAsset e.1 e.2.2).Nodup

/-- A purchase of the asset is reported and redeemed. -/
def ReportRedeemed (s : State) (a : UInt32) : Prop :=
  ∃ t purchase, s.proofHubPurchases t = some purchase ∧ purchase.assetId = a ∧
    s.ownershipRedeemed t = true

/-- The listing of the asset is sold. -/
def SoldByListing (s : State) (a : UInt32) : Prop := ∃ l, s.listings a = some l ∧ l.Traded

/-- A redemption finds one sale of its asset: no report next to a sold listing, and
no second report. -/
def SoldOnce (s : State) : RuntimeCall → Prop
  | .marketplace (.redeemAsset a _ _) =>
      ∀ t purchase, s.proofHubPurchases t = some purchase → purchase.assetId ≠ a
  | .marketplace (.redeemRwaOwnership t _) =>
      ∀ purchase, s.proofHubPurchases t = some purchase →
        ¬ SoldByListing s purchase.assetId ∧
        ∀ t' purchase', s.proofHubPurchases t' = some purchase' →
          purchase'.assetId = purchase.assetId → t' = t
  | _ => True

/-- Reports stay as they are recorded, and stay redeemed. -/
theorem ReportRedeemed.step (h : ReportRedeemed s a) (hstep : step cfg s i = .ok s') :
    ReportRedeemed s' a := by
  obtain ⟨t, purchase, hpurchase, hasset, hredeemed⟩ := h
  obtain ⟨o, call⟩ := i
  cases call with
  | registry call =>
      rw [Marketplace.step, onRegistry_eq_ok] at hstep
      obtain ⟨r, -, rfl⟩ := hstep
      exact ⟨t, purchase, hpurchase, hasset, hredeemed⟩
  | marketplace call =>
      obtain ⟨hrecords, hmarks⟩ := records_of_dispatch hstep
      refine ⟨t, purchase, ?_, hasset, ?_⟩
      · rw [hrecords]
        cases call.report with
        | none => exact hpurchase
        | some e => simp [WriteOnce.writeOnce_apply, hpurchase]
      · rw [hmarks]
        cases call.redeemed with
        | none => exact hredeemed
        | some t' =>
            by_cases ht : t = t'
            · subst ht
              exact Function.update_self ..
            · exact (Function.update_of_ne ht ..).trans hredeemed

/-- A redemption that finds one sale of its asset is the first, and marks it. -/
theorem redeemedAsset_keyMark : KeyMark (step cfg) Settled
    (fun s i => FreeSlot s i ∧ SoldOnce s i.2) (fun s i => redeemedAsset s i.2)
    (fun s a => ListingRedeemed s a ∨ ReportRedeemed s a) where
  invariant _ _ _ h hQ hstep := h.step hQ.1 hstep
  fresh s i s' a _ hQ hstep hkey := by
    obtain ⟨o, call⟩ := i
    match call, hkey with
    | .marketplace (.redeemAsset b n contact), rfl =>
        obtain ⟨⟨l, hl, hbought⟩, -⟩ :=
          listing_of_redeemed (i := (o, .marketplace (.redeemAsset b n contact))) hstep rfl
        rintro (⟨l', hl', hredeemed⟩ | ⟨t, purchase, hpurchase, hasset, -⟩)
        · obtain rfl := Option.some.inj (hl.symm.trans hl')
          simp [hredeemed] at hbought
        · exact hQ.2 t purchase hpurchase hasset
    | .marketplace (.redeemRwaOwnership t blinding), hkey =>
        obtain ⟨_, purchase, -, hpurchase, hfresh, -, -⟩ := redeemRwaOwnership_eq_ok.1 hstep
        have hasset : purchase.assetId = a := by
          simpa [redeemedAsset, hpurchase] using hkey
        obtain ⟨hlisting, hsole⟩ := hQ.2 purchase hpurchase
        rintro (⟨l, hl, hredeemed⟩ | ⟨t', purchase', hpurchase', hasset', hmark⟩)
        · exact hlisting ⟨l, hasset ▸ hl, .inr hredeemed⟩
        · rw [hsole t' purchase' hpurchase' (hasset'.trans hasset.symm), hfresh] at hmark
          cases hmark
  marks s i s' a _ hQ hstep hkey := by
    obtain ⟨o, call⟩ := i
    match call, hkey with
    | .marketplace (.redeemAsset b n contact), rfl =>
        exact .inl (listing_of_redeemed (i := (o, .marketplace (.redeemAsset b n contact)))
          hstep rfl).2
    | .marketplace (.redeemRwaOwnership t blinding), hkey =>
        obtain ⟨_, purchase, -, hpurchase, -, -, rfl⟩ := redeemRwaOwnership_eq_ok.1 hstep
        refine .inr ⟨t, purchase, hpurchase, ?_, Function.update_self ..⟩
        simpa [redeemedAsset, hpurchase] using hkey
  kept s i s' a hsettled _ hstep h := by
    rcases h with h | h
    · exact .inl (h.step hsettled hstep)
    · exact .inr (h.step hstep)

/-- In every run from a genesis whose redemptions find one sale of their asset each,
and whose registrations find their id free, no asset is redeemed twice. -/
theorem redeemed_once_of_sold_once (cfg : Config) (assets : List Registry.RWAAsset)
    (company : Option Registry.CompanyInfo) (calls : List (Origin AccountId × RuntimeCall))
    (hsales : ∀ e ∈ history (step cfg) (State.genesis assets company) calls,
      FreeSlot e.1 e.2 ∧ SoldOnce e.1 e.2.2) :
    RedeemedOnce (history (step cfg) (State.genesis assets company) calls) := by
  have hsettled : Settled (State.genesis assets company) := by
    intro a l hl
    cases hl
  exact redeemedAsset_keyMark.nodup_history hsettled hsales

section Example

/-- The tower is listed and bought, and ProofHub reports a purchase of an asset. -/
def towerReport (assetId : UInt32) : List (Origin AccountId × RuntimeCall) :=
  towerTrade.take 2 ++
    [(.signed (U8Array.zero 32), .marketplace (.xcmRecordPurchase assetId (U8Array.zero 32)
        (U8Array.zero 32) (U8Array.zero 32) (U8Array.zero 16) (U8Array.zero 32)))] ++
    towerTrade.drop 2 ++
    [(.signed (U8Array.ofNat 32 2),
      .marketplace (.redeemRwaOwnership (U8Array.zero 16) (U8Array.zero 32)))]

def towerStart : State := State.genesis [towerAsset] none

theorem towerReport_history : history (step zeroHashConfig) towerStart (towerReport 1) =
    (List.range 5).map fun n =>
      (run (step zeroHashConfig) towerStart ((towerReport 1).take n),
        (towerReport 1).getD n (.root, .marketplace (.cancelListing 0))) := rfl

/-- Where the reported asset is another one, each is redeemed once. -/
theorem tower_redeemed_once :
    RedeemedOnce (history (step zeroHashConfig) towerStart (towerReport 1)) := by
  refine redeemed_once_of_sold_once zeroHashConfig [towerAsset] none (towerReport 1)
    fun e he => ?_
  have hreport : ∀ n ∈ [3, 4], ∀ t purchase,
      (run (step zeroHashConfig) towerStart ((towerReport 1).take n)).proofHubPurchases t =
        some purchase → t = U8Array.zero 16 ∧ purchase.assetId = 1 := by
    intro n hn t purchase hpurchase
    have hrecord : Function.update (fun _ => none) (U8Array.zero 16)
        (some ⟨U8Array.padded 32 (leBytes 4 1), U8Array.zero 32, U8Array.zero 32,
          U8Array.zero 32, U8Array.zero 32⟩) t = some purchase := by
      rcases List.mem_pair.1 hn with rfl | rfl <;> exact hpurchase
    by_cases ht : t = U8Array.zero 16
    · subst ht
      rw [Function.update_self] at hrecord
      obtain rfl := Option.some.inj hrecord
      exact ⟨rfl, by decide +kernel⟩
    · rw [Function.update_of_ne ht] at hrecord
      cases hrecord
  have hunlisted : ∀ l, (run (step zeroHashConfig) towerStart
      ((towerReport 1).take 4)).listings 1 ≠ some l := nofun
  rw [show history (step zeroHashConfig) (State.genesis [towerAsset] none) (towerReport 1) = _
    from towerReport_history] at he
  obtain ⟨n, hn, rfl⟩ := List.mem_map.1 he
  rw [List.mem_range] at hn
  interval_cases n
  · exact ⟨nofun, trivial⟩
  · exact ⟨nofun, trivial⟩
  · exact ⟨nofun, trivial⟩
  · refine ⟨nofun, fun t purchase hpurchase => ?_⟩
    rw [(hreport 3 (by simp) t purchase hpurchase).2]
    decide
  · refine ⟨nofun, fun purchase hpurchase => ⟨?_, fun t' purchase' hpurchase' _ => ?_⟩⟩
    · rw [(hreport 4 (by simp) _ purchase hpurchase).2]
      rintro ⟨l, hl, -⟩
      exact hunlisted l hl
    · exact (hreport 4 (by simp) t' purchase' hpurchase').1

/-- Where the reported asset is the tower, it is redeemed on both paths. -/
theorem tower_redeemed_twice :
    ¬ ∀ (cfg : Config) (assets : List Registry.RWAAsset)
      (company : Option Registry.CompanyInfo)
      (calls : List (Origin AccountId × RuntimeCall)),
      RedeemedOnce (history (step cfg) (State.genesis assets company) calls) := by
  intro h
  have hrun := h zeroHashConfig [towerAsset] none (towerReport 0)
  have htwice : (history (step zeroHashConfig) (State.genesis [towerAsset] none)
      (towerReport 0)).filterMap (fun e => redeemedAsset e.1 e.2.2) = [0, 0] := by
    decide +kernel
  rw [RedeemedOnce, htwice] at hrun
  simp at hrun

end Example

end NullaRelay.RwaParachain.Marketplace
