import NullaRelay.Foundations.Transition
import NullaRelay.ProofHub.Binding
import NullaRelay.ProofHub.Ownership
import NullaRelay.ProofHub.Purchases

/-!
# Where ownership records come from

A relist opens the commitment of the record that it consumes to an asset, and the
commitment was written by a purchase or by the relist before it. Nothing compares
the commitment with the asset when it is written: a buyer may commit to another
asset than the one that is paid for. The relists keep the asset where every
commitment opens to the asset of the call that writes it.
-/

namespace NullaRelay.ProofHub

open NullaRelay.Frame V2 Transition LittleEndian

variable {A L : Type} {T : Config A L} {s s' : State L} {o : Origin A}

/-- The asset and the commitment of the record that a call writes. -/
def Call.recorded : Call → Option (U8Array 32 × U8Array 32)
  | .relistPrivate i => some (i.rwaId, i.newOwnershipCommitment)
  | call => call.purchase.map fun p => (p.rwaId, p.ownershipCommitment)

/-- The id of the record that a call consumes. -/
def Call.relistedFrom : Call → Option (U8Array 16)
  | .relistPrivate i => some i.oldTxId
  | _ => none

/-- The purchase at which the chain of relists back from a record ends; the newest
call comes first. -/
def origin : List (State L × Extrinsic A) → U8Array 16 → Option Purchase
  | [], _ => none
  | e :: older, t =>
      match (e.2.2.footprint e.1).record with
      | some (t', _) =>
          if t' = t then
            match e.2.2.relistedFrom with
            | some old => origin older old
            | none => e.2.2.purchase
          else origin older t
      | none => origin older t

theorem origin_cons_of_ne {e : State L × Extrinsic A} {older : List (State L × Extrinsic A)}
    {t : U8Array 16} (h : ∀ oc, (e.2.2.footprint e.1).record ≠ some (t, oc)) :
    origin (e :: older) t = origin older t := by
  rw [origin]
  split
  · rename_i t' oc hrecord
    rw [if_neg]
    rintro rfl
    exact h oc hrecord
  · rfl

theorem origin_cons_relist {i : RelistInputs} (s : State L) (o : Origin A)
    (older : List (State L × Extrinsic A)) :
    origin ((s, o, .relistPrivate i) :: older) i.newTxId = origin older i.oldTxId := by
  rw [origin]
  exact if_pos rfl

theorem origin_cons_purchase {call : Call} {p : Purchase} (hp : call.purchase = some p)
    (s : State L) (o : Origin A) (older : List (State L × Extrinsic A)) :
    origin ((s, o, call) :: older) p.txId = some p := by
  have hne : ∀ i, call ≠ .relistPrivate i := by
    rintro i rfl
    cases hp
  have hnone : call.relistedFrom = none := by
    cases call with
    | relistPrivate i => exact absurd rfl (hne i)
    | _ => rfl
  have hrecord : (call.footprint s).record = some (p.txId, p.ownershipCommitment) := by
    rw [record_of_purchase hne, hp]
    rfl
  rw [origin]
  simp only [hrecord, hnone, if_pos, hp]

/-- What a call records is the purchase that it makes or the record that it relists. -/
theorem record_cases {call : Call} {t : U8Array 16} {oc : U8Array 32}
    (h : (call.footprint s).record = some (t, oc)) :
    (∃ i, call = .relistPrivate i ∧ t = i.newTxId ∧ oc = i.newOwnershipCommitment) ∨
      ∃ p, call.purchase = some p ∧ t = p.txId ∧ oc = p.ownershipCommitment ∧
        call.recorded = some (p.rwaId, oc) := by
  by_cases hrelist : ∃ i, call = .relistPrivate i
  · obtain ⟨i, rfl⟩ := hrelist
    obtain ⟨rfl, rfl⟩ := Prod.mk.inj (Option.some.inj h)
    exact .inl ⟨i, rfl, rfl, rfl⟩
  · have hne := not_exists.1 hrelist
    rw [record_of_purchase hne] at h
    obtain ⟨p, hp, hpair⟩ := Option.map_eq_some_iff.1 h
    obtain ⟨rfl, rfl⟩ := Prod.mk.inj hpair
    refine .inr ⟨p, hp, rfl, rfl, ?_⟩
    cases call with
    | relistPrivate i => exact absurd rfl (hne i)
    | _ => simp [Call.recorded, hp]

/-- The openings of ownership commitments that occur in a history: those that the
relists reveal, and those of the commitments written, by their blindings. -/
def openings (blinding : Call → U8Array 32) (h : List (State L × Extrinsic A)) :
    Set (U8Array 32 × U8Array 32) :=
  {m | ∃ e ∈ h, (∃ i, e.2.2 = .relistPrivate i ∧ m = (i.rwaId, i.ownershipBlinding)) ∨
    ∃ r, e.2.2.recorded = some r ∧ m = (r.1, blinding e.2.2)}

/-- The hash does not collide on the openings of a history. -/
def OpeningsBind (T : Config A L) (blinding : Call → U8Array 32)
    (h : List (State L × Extrinsic A)) : Prop :=
  Set.InjOn (fun m => computeOwnershipCommitment T m.1 m.2) (openings blinding h)

/-- The commitment that a call writes opens to the asset of the call. -/
def CommitsToAsset (T : Config A L) (blinding : Call → U8Array 32) (call : Call) : Prop :=
  ∀ r ∈ call.recorded, r.2 = computeOwnershipCommitment T r.1 (blinding call)

theorem openings_mono {blinding : Call → U8Array 32} {h h' : List (State L × Extrinsic A)}
    (hsub : h ⊆ h') : openings blinding h ⊆ openings blinding h' := by
  rintro m ⟨e, he, hm⟩
  exact ⟨e, hsub he, hm⟩

/-- Every record comes from a purchase, and its commitment opens to the asset of
that purchase. -/
def Traced (T : Config A L) (blinding : Call → U8Array 32) (s : State L)
    (past : List (State L × Extrinsic A)) : Prop :=
  ∀ t oc, s.ownershipCommitments t = some oc → ∃ p b, origin past.reverse t = some p ∧
    oc = computeOwnershipCommitment T p.rwaId b ∧ (p.rwaId, b) ∈ openings blinding past

/-- A relist opens the record to the asset of the purchase that it comes from. -/
theorem Traced.relist {blinding : Call → U8Array 32} {past : List (State L × Extrinsic A)}
    (h : Traced T blinding s past) {i : RelistInputs}
    (hok : apply T s (o, .relistPrivate i) = .ok s')
    (hbind : OpeningsBind T blinding (past ++ [(s, o, .relistPrivate i)])) :
    ∃ p, origin past.reverse i.oldTxId = some p ∧ p.rwaId = i.rwaId := by
  obtain ⟨-, change, hrelist, -⟩ := relistPrivate_eq_ok.1 hok
  obtain ⟨p, b, horigin, hoc, hmem⟩ := h _ _ hrelist.owned
  have hmem' : (p.rwaId, b) ∈ openings blinding (past ++ [(s, o, .relistPrivate i)]) :=
    openings_mono (List.subset_append_left _ _) hmem
  have hopened : (i.rwaId, i.ownershipBlinding) ∈
      openings blinding (past ++ [(s, o, .relistPrivate i)]) :=
    ⟨(s, o, .relistPrivate i), by simp, .inl ⟨i, rfl, rfl⟩⟩
  have heq : (i.rwaId, i.ownershipBlinding) = (p.rwaId, b) := hbind hopened hmem' hoc
  exact ⟨p, horigin, (congrArg Prod.fst heq).symm⟩

theorem Traced.step {blinding : Call → U8Array 32} {past : List (State L × Extrinsic A)}
    (h : Traced T blinding s past) {x : Extrinsic A} (hok : apply T s x = .ok s')
    (hcommits : CommitsToAsset T blinding x.2)
    (hbind : OpeningsBind T blinding (past ++ [(s, x)])) :
    Traced T blinding s' (past ++ [(s, x)]) := by
  obtain ⟨o, call⟩ := x
  intro t oc ht
  rw [List.reverse_append, List.reverse_singleton, List.singleton_append]
  rcases (ownershipCommitments_eq_some (effect_of_apply hok) t oc).1 ht with hwritten | ⟨hold, hne⟩
  · rcases record_cases hwritten with ⟨i, rfl, rfl, rfl⟩ | ⟨p, hp, rfl, rfl, hrecorded⟩
    · obtain ⟨p, horigin, hasset⟩ := h.relist hok hbind
      refine ⟨p, blinding (.relistPrivate i), ?_, ?_, ?_⟩
      · rw [origin_cons_relist, horigin]
      · rw [hasset]
        exact hcommits (i.rwaId, i.newOwnershipCommitment) rfl
      · exact ⟨(s, o, .relistPrivate i), by simp,
          .inr ⟨(i.rwaId, i.newOwnershipCommitment), rfl, by rw [hasset]⟩⟩
    · refine ⟨p, blinding call, origin_cons_purchase hp s o _, hcommits _ hrecorded, ?_⟩
      exact ⟨(s, o, call), by simp, .inr ⟨_, hrecorded, rfl⟩⟩
  · obtain ⟨p, b, horigin, hoc, hmem⟩ := h t oc hold
    exact ⟨p, b, (origin_cons_of_ne hne).trans horigin, hoc,
      openings_mono (List.subset_append_left _ _) hmem⟩

/-- The chain of relists back from every record that is relisted ends at a purchase
of the asset that the relist names. -/
def RelistsKeepAsset (h : List (State L × Extrinsic A)) : Prop :=
  ∀ past e later i, h = past ++ e :: later → e.2.2 = .relistPrivate i →
    ∃ p, origin past.reverse i.oldTxId = some p ∧ p.rwaId = i.rwaId

theorem RelistsKeepAsset.append_singleton {h : List (State L × Extrinsic A)}
    (hkeep : RelistsKeepAsset h) {e : State L × Extrinsic A}
    (he : ∀ i, e.2.2 = .relistPrivate i →
      ∃ p, origin h.reverse i.oldTxId = some p ∧ p.rwaId = i.rwaId) :
    RelistsKeepAsset (h ++ [e]) := by
  intro past e' later i hsplit
  exact past_append_singleton (R := fun past e => ∀ i, e.2.2 = .relistPrivate i →
    ∃ p, origin past.reverse i.oldTxId = some p ∧ p.rwaId = i.rwaId)
    (fun past e later hpast i => hkeep past e later i hpast) he past e' later hsplit i

theorem OpeningsBind.of_append {blinding : Call → U8Array 32} {h h' : List (State L × Extrinsic A)}
    (hbind : OpeningsBind T blinding (h ++ h')) : OpeningsBind T blinding h :=
  Set.InjOn.mono (openings_mono (List.subset_append_left h h')) hbind

/-- In every run from a storage without ownership records whose commitments open to
the assets of the calls that write them, the relists keep the asset. -/
theorem relists_keep_asset_of_commits (T : Config A L) (s : State L) (xs : List (Extrinsic A))
    (hnone : ∀ t, s.ownershipCommitments t = none) (blinding : Call → U8Array 32)
    (hcommits : ∀ e ∈ history (apply T) s xs, CommitsToAsset T blinding e.2.2)
    (hbind : OpeningsBind T blinding (history (apply T) s xs)) :
    RelistsKeepAsset (history (apply T) s xs) := by
  have hstart : Traced T blinding s [] := by
    intro t oc ht
    rw [hnone] at ht
    cases ht
  have hempty : RelistsKeepAsset ([] : List (State L × Extrinsic A)) := by
    intro past e later i hsplit
    simp at hsplit
  have hrun := history_invariant (Q := fun _ x => CommitsToAsset T blinding x.2)
    (P := fun s past => OpeningsBind T blinding past →
      Traced T blinding s past ∧ RelistsKeepAsset past)
    (fun s x s' past hpast hx (hok : apply T s x = .ok s') hbind => by
      obtain ⟨htraced, hkeep⟩ := hpast hbind.of_append
      refine ⟨htraced.step hok hx hbind, hkeep.append_singleton ?_⟩
      obtain ⟨o, call⟩ := x
      rintro i rfl
      exact htraced.relist hok hbind)
    s xs [] (fun _ => ⟨hstart, hempty⟩) hcommits
  exact (hrun hbind).2

section Example

/-- A hash that keeps 32 bytes behind a domain of 22: an ownership commitment under
it is the asset. -/
@[irreducible] def assetHash (bytes : List UInt8) : U8Array 32 :=
  U8Array.ofNat 32 (leNat ((bytes.drop 22).take 32))

theorem assetHash_commitment (asset b : U8Array 32) :
    computeOwnershipCommitment (acceptingConfig assetHash) asset b = asset := by
  have hlen : (byteString "nulla_rwa_ownership_v1").length = 22 := by decide
  have hdrop : (byteString "nulla_rwa_ownership_v1" ++ asset.toList ++ b.toList).drop 22 =
      asset.toList ++ b.toList := by
    rw [List.append_assoc, ← hlen, List.drop_left]
  have htake : (asset.toList ++ b.toList).take 32 = asset.toList :=
    List.take_left' asset.toList_length
  change assetHash _ = asset
  rw [assetHash, hdrop, htake]
  exact U8Array.toNat_inj (U8Array.toNat_ofNat asset.toNat_lt)

/-- A commitment to the value five. -/
def noteOfFive : U8Array 32 :=
  Verifier.blake3Commitment (acceptingPrimitives assetHash) 5 (U8Array.zero 32)

/-- A storage with legacy notes of value five under every tag and every asset at
the price one. -/
def notesOfFive : State (U8Array 32 → ℕ) :=
  { genesis tenEach with
    spendTagCommitments := fun _ => some noteOfFive
    rwaPrices := fun _ => 1 }

/-- A purchase of the asset zero with a commitment to an asset. -/
def buyAs (asset : U8Array 32) : SpendPublicV2 :=
  { rebuy notesOfFive 1 with ownershipCommitment := asset }

def buyAsCall (asset : U8Array 32) : Extrinsic (U8Array 32) :=
  (.none, .purchaseRwaV2 anyAuth (buyAs asset).encode [])

/-- The relist of this purchase as one of the asset. -/
def relistAs (asset : U8Array 32) : RelistInputs :=
  { wholeRelist with
    rwaId := asset
    ownershipBlinding := U8Array.zero 32
    paymentCommitment := noteOfFive
    buyerBlinding := U8Array.zero 32
    paymentBlinding := U8Array.zero 32
    newOwnershipCommitment := asset }

def relistAsCall (asset : U8Array 32) : Extrinsic (U8Array 32) :=
  (.none, .relistPrivate (relistAs asset))

theorem keepsTree_notesOfFive :
    KeepsTree (merkleHash2 (poseidonHashes assetHash)) notesOfFive [] :=
  have h := keepsTree_genesis (L := U8Array 32 → ℕ) tenEach
  ⟨h.holds, h.indexed, h.current, h.recent⟩

theorem buyAs_history (asset : U8Array 32) : ∃ s₁ s₂,
    apply (acceptingConfig assetHash) notesOfFive (buyAsCall asset) = .ok s₁ ∧
      apply (acceptingConfig assetHash) s₁ (relistAsCall asset) = .ok s₂ := by
  have hprice : 0 < notesOfFive.rwaPrices (buyAs asset).rwaId := by simp [notesOfFive]
  obtain ⟨s₁, h₁, -, heff⟩ := accepting_purchaseRwaV2 (i := buyAs asset) keepsTree_notesOfFive rfl
    (.inl rfl) hprice (List.not_mem_nil) (by decide)
  have hopen : (acceptingConfig assetHash).proofVerifier.verifyCommitment
      (relistAs asset).buyerValue (relistAs asset).buyerBlinding noteOfFive = true :=
    decide_eq_true (p := Verifier.blake3Commitment _ _ _ = noteOfFive) rfl
  have hbalanced : checkRelistChange (acceptingConfig assetHash) (relistAs asset) = .ok none :=
    if_neg (by simp [relistAs, wholeRelist])
  obtain ⟨-, i, -, -, -, s', hins, rfl⟩ := purchaseRwaV2_eq_ok.1 h₁
  obtain ⟨-, frontier, newRoot, -, rfl⟩ := v2Insert_eq_ok.1 hins
  have howned := (ownershipCommitments_eq_some heff (U8Array.zero 16) asset).2 (.inl rfl)
  have hrelist : Relistable (acceptingConfig assetHash) _ (relistAs asset) none :=
    { owned := howned.trans (congrArg some (assetHash_commitment asset _).symm)
      unsold := rfl
      unused := rfl
      opened := ⟨noteOfFive, rfl, hopen⟩
      covered := UInt64.le_refl _
      balanced := hbalanced
      paid := hopen }
  exact ⟨_, _, h₁, relistPrivate_eq_ok.2 ⟨rfl, none, hrelist, _, _,
    doInsertNote_eq_some.2 ⟨rfl, rfl, rfl⟩, rfl⟩⟩

/-- The asset zero is bought with a commitment to the asset one, and relisted as
the asset one. -/
theorem other_asset_relisted :
    (∀ asset b asset' b',
      computeOwnershipCommitment (acceptingConfig assetHash) asset b =
        computeOwnershipCommitment (acceptingConfig assetHash) asset' b' → asset = asset') ∧
    ¬ ∀ (s : State (U8Array 32 → ℕ)) (xs : List (Extrinsic (U8Array 32))),
      (∀ t, s.ownershipCommitments t = none) →
        RelistsKeepAsset (history (apply (acceptingConfig assetHash)) s xs) := by
  refine ⟨fun asset b asset' b' h => ?_, fun hclaim => ?_⟩
  · rwa [assetHash_commitment, assetHash_commitment] at h
  · obtain ⟨s₁, s₂, h₁, h₂⟩ := buyAs_history (U8Array.ofNat 32 1)
    have hhist : history (apply (acceptingConfig assetHash)) notesOfFive
        [buyAsCall (U8Array.ofNat 32 1), relistAsCall (U8Array.ofNat 32 1)] =
        [(notesOfFive, buyAsCall (U8Array.ofNat 32 1))] ++
          (s₁, relistAsCall (U8Array.ofNat 32 1)) :: [] := by
      rw [history_cons_ok h₁, history_cons_ok h₂]
      rfl
    obtain ⟨p, horigin, hasset⟩ := hclaim notesOfFive _ (fun _ => rfl) _ _ _ _ hhist rfl
    have hbought : (buyAsCall (U8Array.ofNat 32 1)).2.purchase =
        some ⟨U8Array.zero 32, U8Array.ofNat 32 1, U8Array.ofNat 32 1, U8Array.zero 16,
          U8Array.ofNat 32 1⟩ := by
      rw [buyAsCall, Call.purchase, SpendPublicV2.decode_encode]
      rfl
    have hp := Option.some.inj ((origin_cons_purchase hbought _ _ _).symm.trans horigin)
    rw [← hp] at hasset
    exact absurd hasset (by decide)

theorem buyAs_recorded (asset : U8Array 32) :
    (buyAsCall asset).2.recorded = some (U8Array.zero 32, asset) := by
  have hdec : SpendPublicV2.decode (buyAs asset).encode = some (buyAs asset) :=
    (buyAs asset).decode_encode
  simp only [buyAsCall, Call.recorded, Call.purchase, hdec]
  rfl

/-- The run that relists the asset zero as what it is. -/
theorem same_asset_relisted : ∃ s₁ s₂,
    history (apply (acceptingConfig assetHash)) notesOfFive
        [buyAsCall (U8Array.zero 32), relistAsCall (U8Array.zero 32)] =
      [(notesOfFive, buyAsCall (U8Array.zero 32)), (s₁, relistAsCall (U8Array.zero 32))] ∧
    apply (acceptingConfig assetHash) s₁ (relistAsCall (U8Array.zero 32)) = .ok s₂ ∧
    RelistsKeepAsset (history (apply (acceptingConfig assetHash)) notesOfFive
      [buyAsCall (U8Array.zero 32), relistAsCall (U8Array.zero 32)]) := by
  obtain ⟨s₁, s₂, h₁, h₂⟩ := buyAs_history (U8Array.zero 32)
  have hhist : history (apply (acceptingConfig assetHash)) notesOfFive
      [buyAsCall (U8Array.zero 32), relistAsCall (U8Array.zero 32)] =
      [(notesOfFive, buyAsCall (U8Array.zero 32)), (s₁, relistAsCall (U8Array.zero 32))] := by
    rw [history_cons_ok h₁, history_cons_ok h₂, history_nil]
  have hrecorded : ∀ e ∈ history (apply (acceptingConfig assetHash)) notesOfFive
      [buyAsCall (U8Array.zero 32), relistAsCall (U8Array.zero 32)],
      e.2.2.recorded = some (U8Array.zero 32, U8Array.zero 32) := by
    intro e he
    rw [hhist] at he
    rcases List.mem_pair.1 he with rfl | rfl
    · exact buyAs_recorded _
    · rfl
  refine ⟨s₁, s₂, hhist, h₂, relists_keep_asset_of_commits _ notesOfFive _ (fun _ => rfl)
    (fun _ => U8Array.zero 32) ?_ ?_⟩
  · intro e he r hr
    rw [hrecorded e he] at hr
    obtain rfl := Option.some.inj hr
    exact (assetHash_commitment _ _).symm
  · have hopening : ∀ m ∈ openings (fun _ => U8Array.zero 32)
        (history (apply (acceptingConfig assetHash)) notesOfFive
          [buyAsCall (U8Array.zero 32), relistAsCall (U8Array.zero 32)]),
        m = (U8Array.zero 32, U8Array.zero 32) := by
      rintro m ⟨e, he, ⟨i, hi, rfl⟩ | ⟨r, hr, rfl⟩⟩
      · rw [hhist] at he
        rcases List.mem_pair.1 he with rfl | rfl
        · cases hi
        · cases hi
          rfl
      · rw [hrecorded e he] at hr
        obtain rfl := Option.some.inj hr
        rfl
    intro m hm m' hm' _
    rw [hopening m hm, hopening m' hm']

end Example

end NullaRelay.ProofHub
