import NullaRelay.ProofHub.OpenedOnce

/-!
# The notes of a relist

A relist turns the buyer's note into a payment and, where it is worth more than the
price, a change. The payment note has to be new, or the relist fails; a change note
whose commitment is indexed already is dropped without an error. The tags of both are
taken as they are named: nothing checks that they are unused, that they differ, or
that neither is the tag that the relist spends.
-/

namespace NullaRelay.ProofHub

open NullaRelay.Frame

variable {A L : Type} {T : Config A L} {s s' : State L} {o : Origin A} {i : RelistInputs}

/-- The tag is unused and holds the commitment, which has joined. -/
structure HoldsNote (s : State L) (t c : U8Array 32) : Prop where
  held : s.spendTagCommitments t = some c
  unused : s.spendTagUsed t = false
  joined : (s.commitmentIndex c).isSome = true

/-- What is promised of a relist: the payment and the change are spendable, under
different tags, and are worth the buyer's note together. -/
structure ConservesBuyer (T : Config A L) (s' : State L) (i : RelistInputs) : Prop where
  payment : HoldsNote s' i.paymentSpendTag i.paymentCommitment
  payment_opens : ∃ b, T.proofVerifier.verifyCommitment i.price b i.paymentCommitment = true
  covered : i.price ≤ i.buyerValue
  change : i.price < i.buyerValue → ∃ c t, i.changeCommitment = some c ∧
    i.changeSpendTag = some t ∧ HoldsNote s' t c ∧ t ≠ i.paymentSpendTag
  change_opens : i.price < i.buyerValue → ∃ c v b, i.changeCommitment = some c ∧
    T.proofVerifier.verifyCommitment v b c = true ∧
    i.price.toNat + v.toNat = i.buyerValue.toNat

/-- The tag is unused, and the relist does not spend it. -/
def FreeTag (s : State L) (i : RelistInputs) (t : U8Array 32) : Prop :=
  s.spendTagUsed t = false ∧ t ≠ i.newBuyerSpendTag

/-- The change joins as a commitment of its own, or its tag holds it already. -/
def JoinsOrHeld (s : State L) (i : RelistInputs) (note : U8Array 32 × U8Array 32) : Prop :=
  (note.1 ≠ i.paymentCommitment ∧ s.commitmentIndex note.1 = none) ∨
    s.spendTagCommitments note.2 = some note.1

/-- The tags of the new notes are free and differ, and the change is not dropped. -/
def NotesApart (s : State L) (i : RelistInputs) : Prop :=
  FreeTag s i i.paymentSpendTag ∧
    ∀ note ∈ i.changeNote, note.2 ≠ i.paymentSpendTag ∧ FreeTag s i note.2 ∧ JoinsOrHeld s i note

theorem spendTagUsed_of_relist (h : relistPrivate T s o i = .ok s') (t : U8Array 32) :
    s'.spendTagUsed t = false ↔ FreeTag s i t := by
  have heff : Effect T s s' i.footprint := effect_of_apply (x := (o, .relistPrivate i)) h
  rw [heff.spendTagUsed, write_true_eq_false, FreeTag]
  simp [RelistInputs.footprint, @eq_comm _ t]

theorem sub_pos_iff_price_lt (h : i.price ≤ i.buyerValue) :
    0 < i.buyerValue - i.price ↔ i.price < i.buyerValue := by
  have hle := UInt64.le_iff_toNat_le.1 h
  rw [UInt64.lt_iff_toNat_lt, UInt64.lt_iff_toNat_lt, UInt64.toNat_sub_of_le _ _ h]
  simp

theorem changeNote_eq_some (h : relistPrivate T s o i = .ok s') {c t : U8Array 32} :
    i.changeNote = some (c, t) ↔
      i.price < i.buyerValue ∧ i.changeCommitment = some c ∧ i.changeSpendTag = some t := by
  obtain ⟨-, change, hrelist, -⟩ := relistPrivate_eq_ok.1 h
  rw [RelistInputs.changeNote, ← sub_pos_iff_price_lt hrelist.covered]
  split_ifs with hpos
  · simp [Option.map₂_eq_some_iff, hpos]
  · simp [hpos]

/-- The change output that a relist asks for is opened to what the price leaves. -/
theorem change_of_relist (h : relistPrivate T s o i = .ok s')
    (hlt : i.price < i.buyerValue) : ∃ c t v b, i.changeCommitment = some c ∧
      i.changeSpendTag = some t ∧ T.proofVerifier.verifyCommitment v b c = true ∧
      i.price.toNat + v.toNat = i.buyerValue.toNat := by
  obtain ⟨-, change, hrelist, -⟩ := relistPrivate_eq_ok.1 h
  have hbalanced := hrelist.balanced
  rw [checkRelistChange, if_pos ((sub_pos_iff_price_lt hrelist.covered).2 hlt)] at hbalanced
  split at hbalanced
  · rename_i c t v b hc ht hv hb
    simp only [bind_eq_ok, ensure_eq_ok, exists_const] at hbalanced
    obtain ⟨hvalue, hopen, -⟩ := hbalanced
    refine ⟨c, t, v, b, hc, ht, hopen, ?_⟩
    rw [hvalue, UInt64.toNat_sub_of_le _ _ hrelist.covered]
    exact Nat.add_sub_cancel' (UInt64.le_iff_toNat_le.1 hrelist.covered)
  · cases hbalanced

/-- The commitments of both notes are indexed after a relist, dropped or not. -/
theorem joined_of_relist (h : relistPrivate T s o i = .ok s') :
    (s'.commitmentIndex i.paymentCommitment).isSome = true ∧
      ∀ note ∈ i.changeNote, (s'.commitmentIndex note.1).isSome = true := by
  have hindex : ∀ c, (s'.commitmentIndex c).isSome ↔ (s.commitmentIndex c).isSome ∨
      c ∈ (Call.registered s (.relistPrivate i)).map Prod.fst := fun c =>
    commitmentIndex_of_apply (x := (o, .relistPrivate i)) h trivial
  refine ⟨(hindex _).2 (.inr (by simp [Call.registered])), fun note hnote => ?_⟩
  rw [hindex, Call.registered, show i.changeNote = some note from hnote]
  by_cases hpay : note.1 = i.paymentCommitment
  · exact .inr (by simp [hpay])
  · cases hold : s.commitmentIndex note.1 with
    | some idx => exact .inl rfl
    | none => exact .inr (by simp [hpay, hold, Option.filter])

/-- The registry of tags after a relist with change. -/
theorem tags_of_relist_change (h : relistPrivate T s o i = .ok s')
    {note : U8Array 32 × U8Array 32} (hnote : i.changeNote = some note) :
    s'.spendTagCommitments =
      if note.1 ≠ i.paymentCommitment ∧ s.commitmentIndex note.1 = none then
        insertAt (insertAt s.spendTagCommitments i.paymentSpendTag (some i.paymentCommitment))
          note.2 (some note.1)
      else insertAt s.spendTagCommitments i.paymentSpendTag (some i.paymentCommitment) := by
  rw [relistPrivate_spendTagCommitments h, Call.registered, hnote]
  split_ifs with hnew
  · simp [Option.filter, hnew, registerNotes]
  · simp [Option.filter, hnew, registerNotes]

theorem tags_of_relist_whole (h : relistPrivate T s o i = .ok s') (hnote : i.changeNote = none) :
    s'.spendTagCommitments =
      insertAt s.spendTagCommitments i.paymentSpendTag (some i.paymentCommitment) := by
  rw [relistPrivate_spendTagCommitments h, Call.registered, hnote]
  rfl

/-- The tags hold both notes of a relist with change exactly when they differ and the
change is not dropped. -/
theorem notes_held_iff (h : relistPrivate T s o i = .ok s') {note : U8Array 32 × U8Array 32}
    (hnote : i.changeNote = some note) (hne : note.2 ≠ i.paymentSpendTag) :
    s'.spendTagCommitments i.paymentSpendTag = some i.paymentCommitment ∧
      (s'.spendTagCommitments note.2 = some note.1 ↔ JoinsOrHeld s i note) := by
  rw [tags_of_relist_change h hnote, JoinsOrHeld]
  split_ifs with hnew
  · refine ⟨?_, ?_⟩
    · rw [insertAt, Function.update_of_ne hne.symm, insertAt, Function.update_self]
    · simp [hnew]
  · refine ⟨Function.update_self .., ?_⟩
    rw [insertAt, Function.update_of_ne hne]
    simp [hnew]

/-- A relist conserves the buyer's note exactly when its notes are kept apart. -/
theorem relist_conserves_iff (h : relistPrivate T s o i = .ok s') :
    ConservesBuyer T s' i ↔ NotesApart s i := by
  obtain ⟨hpayment, hchange⟩ := joined_of_relist h
  constructor
  · intro hcons
    refine ⟨(spendTagUsed_of_relist h _).1 hcons.payment.unused, ?_⟩
    rintro ⟨c, t⟩ hnote
    obtain ⟨hlt, hc, ht⟩ := (changeNote_eq_some h).1 hnote
    obtain ⟨c', t', hc', ht', hholds, hne⟩ := hcons.change hlt
    obtain rfl := Option.some.inj (hc.symm.trans hc')
    obtain rfl := Option.some.inj (ht.symm.trans ht')
    exact ⟨hne, (spendTagUsed_of_relist h _).1 hholds.unused,
      (notes_held_iff h hnote hne).2.1 hholds.held⟩
  · rintro ⟨hfree, hnotes⟩
    obtain ⟨-, change, hrelist, -⟩ := relistPrivate_eq_ok.1 h
    have hheld : s'.spendTagCommitments i.paymentSpendTag = some i.paymentCommitment := by
      cases hnote : i.changeNote with
      | none => rw [tags_of_relist_whole h hnote, insertAt, Function.update_self]
      | some note => exact (notes_held_iff h hnote (hnotes note hnote).1).1
    refine
      { payment := ⟨hheld, (spendTagUsed_of_relist h _).2 hfree, hpayment⟩
        payment_opens := ⟨_, hrelist.paid⟩
        covered := hrelist.covered
        change := fun hlt => ?_
        change_opens := fun hlt => ?_ }
    · obtain ⟨c, t, v, b, hc, ht, -⟩ := change_of_relist h hlt
      have hnote : i.changeNote = some (c, t) := (changeNote_eq_some h).2 ⟨hlt, hc, ht⟩
      obtain ⟨hne, hfreeChange, hjoins⟩ := hnotes _ hnote
      exact ⟨c, t, hc, ht, ⟨(notes_held_iff h hnote hne).2.2 hjoins,
        (spendTagUsed_of_relist h _).2 hfreeChange, hchange _ hnote⟩, hne⟩
    · obtain ⟨c, t, v, b, hc, -, hopen, hsum⟩ := change_of_relist h hlt
      exact ⟨c, v, b, hc, hopen, hsum⟩

section Example

/-- The storage of `legacyNotes` with an ownership record. -/
def relistMarket : State (U8Array 32 → ℕ) :=
  { legacyNotes with ownershipCommitments := fun _ => some (U8Array.zero 32) }

/-- The note of value four, under the tag one, buys a record; the change goes under
the tag three. -/
def relistAt (price : UInt64) : RelistInputs where
  oldTxId := U8Array.zero 16
  rwaId := U8Array.zero 32
  ownershipBlinding := U8Array.zero 32
  newBuyerSpendTag := U8Array.ofNat 32 1
  price
  paymentCommitment := U8Array.ofNat 32 price.toNat
  paymentSpendTag := U8Array.ofNat 32 2
  changeCommitment := some (U8Array.ofNat 32 (4 - price).toNat)
  changeSpendTag := some (U8Array.ofNat 32 3)
  newOwnershipCommitment := U8Array.zero 32
  newTxId := U8Array.ofNat 16 1
  buyerValue := 4
  buyerBlinding := U8Array.zero 32
  paymentBlinding := U8Array.zero 32
  changeValue := some (4 - price)
  changeBlinding := some (U8Array.zero 32)

theorem relistAt_succeeds (price : UInt64) (hle : price ≤ 4) (hpos : 0 < 4 - price) :
    ∃ s', relistPrivate plainConfig relistMarket .none (relistAt price) = .ok s' := by
  have hopen (v : UInt64) (b : U8Array 32) :
      plainConfig.proofVerifier.verifyCommitment v b (U8Array.ofNat 32 v.toNat) = true :=
    decide_eq_true rfl
  have hbalanced : checkRelistChange plainConfig (relistAt price) =
      .ok (some (U8Array.ofNat 32 (4 - price).toNat, U8Array.ofNat 32 3)) := by
    have hchange : 0 < (relistAt price).buyerValue - (relistAt price).price := hpos
    rw [checkRelistChange, if_pos hchange]
    simp only [relistAt, bind_eq_ok, ensure_eq_ok, pure_eq_ok, exists_const]
    exact ⟨trivial, hopen _ _, trivial⟩
  have hrelist : Relistable plainConfig relistMarket (relistAt price) _ :=
    { owned := rfl
      unsold := rfl
      unused := rfl
      opened := ⟨U8Array.ofNat 32 4, rfl, hopen 4 _⟩
      covered := hle
      balanced := hbalanced
      paid := hopen price _ }
  exact ⟨_, relistPrivate_eq_ok.2 ⟨rfl, _, hrelist, _, _, doInsertNote_eq_some.2 ⟨rfl, rfl, rfl⟩,
    rfl⟩⟩

/-- At half the value of the note, payment and change are one commitment here, and the
change is lost. -/
theorem half_relist_loses_change :
    ¬ ∀ (s s' : State (U8Array 32 → ℕ)) (i : RelistInputs),
      relistPrivate plainConfig s .none i = .ok s' → ConservesBuyer plainConfig s' i := by
  intro hclaim
  obtain ⟨s', hs'⟩ := relistAt_succeeds 2 (by decide) (by decide)
  have hcons := hclaim _ _ _ hs'
  obtain ⟨c, t, hc, ht, hholds, hne⟩ := hcons.change (by decide)
  have hnote : (relistAt 2).changeNote = some (c, t) :=
    (changeNote_eq_some hs').2 ⟨by decide, hc, ht⟩
  have hc' : c = U8Array.ofNat 32 2 := (Option.some.inj hc).symm
  have ht' : t = U8Array.ofNat 32 3 := (Option.some.inj ht).symm
  subst hc' ht'
  rcases (notes_held_iff hs' hnote hne).2.1 hholds.held with ⟨hnew, -⟩ | hheld
  · exact hnew rfl
  · simp only [relistMarket, legacyNotes] at hheld
    rw [if_neg (by decide), if_neg (by decide)] at hheld
    cases hheld

/-- At a quarter of it both notes are there. -/
theorem quarter_relist_conserves_iff :
    ∃ s', relistPrivate plainConfig relistMarket .none (relistAt 1) = .ok s' ∧
      (ConservesBuyer plainConfig s' (relistAt 1) ↔ NotesApart relistMarket (relistAt 1)) := by
  obtain ⟨s', hs'⟩ := relistAt_succeeds 1 (by decide) (by decide)
  exact ⟨s', hs', relist_conserves_iff hs'⟩

end Example

end NullaRelay.ProofHub
