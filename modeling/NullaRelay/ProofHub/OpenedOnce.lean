import NullaRelay.ProofHub.ChangeNotes
import NullaRelay.ProofHub.NoteLeaves

/-!
# Commitments are opened once

A note of the first lane is spent by its tag, while its value sits in a commitment
that the callers put under tags of their choice. A commitment joins the registry once
only: it is indexed then, and no indexed commitment is registered again, whatever
becomes of its tag. So it has one tag at most, and once this tag is spent nothing
opens the commitment any more, also when the tag is given to another one.
-/

namespace NullaRelay.ProofHub

open NullaRelay.Frame Transition

variable {A L : Type} {T : Config A L} {s s' : State L} {x : Extrinsic A} {c : U8Array 32}

/-- Different tags hold different commitments, all of which have joined. -/
structure TagsBind (tags : U8Array 32 → Option (U8Array 32)) (joined : U8Array 32 → Prop) :
    Prop where
  inj : ∀ t t' c, tags t = some c → tags t' = some c → t = t'
  joined : ∀ t c, tags t = some c → joined c

namespace TagsBind

variable {tags : U8Array 32 → Option (U8Array 32)} {joined joined' : U8Array 32 → Prop}

theorem mono (h : TagsBind tags joined) (hsub : ∀ c, joined c → joined' c) :
    TagsBind tags joined' :=
  ⟨h.inj, fun t c hc => hsub c (h.joined t c hc)⟩

/-- A new commitment may take any tag. -/
theorem insert (h : TagsBind tags joined) (hnew : ¬ joined c) (t : U8Array 32) :
    TagsBind (insertAt tags t (some c)) fun c' => joined c' ∨ c' = c := by
  have hother : ∀ t', tags t' ≠ some c := fun t' ht' => hnew (h.joined t' c ht')
  constructor
  · intro t₁ t₂ c' h₁ h₂
    by_cases ht₁ : t₁ = t <;> by_cases ht₂ : t₂ = t
    · rw [ht₁, ht₂]
    · rw [ht₁, insertAt, Function.update_self] at h₁
      rw [insertAt, Function.update_of_ne ht₂, ← h₁] at h₂
      exact absurd h₂ (hother t₂)
    · rw [ht₂, insertAt, Function.update_self] at h₂
      rw [insertAt, Function.update_of_ne ht₁, ← h₂] at h₁
      exact absurd h₁ (hother t₁)
    · rw [insertAt, Function.update_of_ne ht₁] at h₁
      rw [insertAt, Function.update_of_ne ht₂] at h₂
      exact h.inj t₁ t₂ c' h₁ h₂
  · intro t' c' hc'
    by_cases ht : t' = t
    · rw [ht, insertAt, Function.update_self] at hc'
      exact .inr (Option.some.inj hc').symm
    · rw [insertAt, Function.update_of_ne ht] at hc'
      exact .inl (h.joined t' c' hc')

theorem registerNotes {notes : List (U8Array 32 × U8Array 32)} (h : TagsBind tags joined)
    (hnodup : (notes.map Prod.fst).Nodup) (hnew : ∀ c ∈ notes.map Prod.fst, ¬ joined c) :
    TagsBind (registerNotes tags notes) fun c => joined c ∨ c ∈ notes.map Prod.fst := by
  induction notes generalizing tags joined with
  | nil => exact h.mono fun c hc => .inl hc
  | cons note notes ih =>
      rw [List.map_cons, List.nodup_cons] at hnodup
      have hstep := ih (h.insert (hnew note.1 (by simp)) note.2) hnodup.2 fun c hc => by
        rintro (hold | rfl)
        · exact hnew c (by simp [hc]) hold
        · exact hnodup.1 hc
      refine hstep.mono fun c hc => ?_
      rw [List.map_cons, List.mem_cons]
      exact or_assoc.1 hc

end TagsBind

theorem registerNotes_eq_some {tags : U8Array 32 → Option (U8Array 32)}
    {notes : List (U8Array 32 × U8Array 32)} {t : U8Array 32}
    (h : registerNotes tags notes t = some c) : c ∈ notes.map Prod.fst ∨ tags t = some c := by
  induction notes generalizing tags with
  | nil => exact .inr h
  | cons note notes ih =>
      have hlater : registerNotes (insertAt tags note.2 (some note.1)) notes t = some c := h
      rcases ih hlater with hc | hc
      · exact .inl (by simp [hc])
      · by_cases ht : t = note.2
        · rw [ht, insertAt, Function.update_self] at hc
          exact .inl (by simp [Option.some.inj hc])
        · rw [insertAt, Function.update_of_ne ht] at hc
          exact .inr hc

/-- What a call registers is new, and no commitment is registered twice by it. -/
theorem registered_new (h : apply T s x = .ok s') :
    ((x.2.registered s).map Prod.fst).Nodup ∧
      ∀ c ∈ (x.2.registered s).map Prod.fst, s.commitmentIndex c = none := by
  have hchange : ∀ o : Option RwaPurchaseInputs,
      (((o.bind (registeredChange s)).toList.map Prod.fst).Nodup ∧
        ∀ c ∈ (o.bind (registeredChange s)).toList.map Prod.fst,
          s.commitmentIndex c = none) := by
    intro o
    cases hnote : o.bind (registeredChange s) with
    | none => simp
    | some note =>
        obtain ⟨i, -, hi⟩ := Option.bind_eq_some_iff.1 hnote
        refine ⟨by simp, fun c hc => ?_⟩
        obtain rfl : c = note.1 := by simpa using hc
        unfold registeredChange at hi
        split at hi
        · split_ifs at hi with hnone
          rw [← Option.some.inj hi]
          exact hnone
        · cases hi
  obtain ⟨o, call⟩ := x
  cases call with
  | purchaseRwa p pi => exact hchange _
  | purchaseAccess p pi => exact hchange _
  | relistPrivate inputs =>
      obtain ⟨-, change, hrelist, s₁, leaves, hins, rfl⟩ := relistPrivate_eq_ok.1 h
      have hpayment : s.commitmentIndex inputs.paymentCommitment = none :=
        (doInsertNote_eq_some.1 hins).1
      simp only [Call.registered, List.map_cons]
      cases hnote : inputs.changeNote.filter fun note =>
          note.1 ≠ inputs.paymentCommitment ∧ s.commitmentIndex note.1 = none with
      | none => simpa using hpayment
      | some note =>
          have hnew := (Option.filter_eq_some_iff.1 hnote).2
          simp only [ne_eq, decide_eq_true_eq] at hnew
          simp [hpayment, hnew, Ne.symm hnew.1]
  | _ => simp [Call.registered]

/-- What a v1 call does to the index. -/
theorem commitmentIndex_of_apply (h : apply T s x = .ok s') (hv1 : x.2.IsV1) :
    (s'.commitmentIndex c).isSome ↔
      (s.commitmentIndex c).isSome ∨ c ∈ (x.2.registered s).map Prod.fst := by
  have hindex : s'.commitmentIndex =
      (s.leafStore.commit T ((x.2.registered s).map Prod.fst)).commitmentIndex :=
    congrArg LeafStore.commitmentIndex (leafStore_of_apply h hv1)
  rw [hindex, LeafStore.commit]
  split_ifs with hnil
  · simp [hnil, State.leafStore]
  · exact NoteTree.isSome_indexAll

/-- The storage binds the tags to indexed commitments. -/
def State.TagsBind (s : State L) : Prop :=
  ProofHub.TagsBind s.spendTagCommitments fun c => (s.commitmentIndex c).isSome = true

theorem State.TagsBind.step (h : s.TagsBind) (hv1 : x.2.IsV1) (hok : apply T s x = .ok s') :
    s'.TagsBind := by
  obtain ⟨hnodup, hnew⟩ := registered_new hok
  have hnotes := h.registerNotes hnodup fun c hc => by simp [hnew c hc]
  rw [← spendTagCommitments_of_apply hok] at hnotes
  exact hnotes.mono fun c hc => (commitmentIndex_of_apply hok hv1).2 hc

/-- The commitment that a call opens. -/
def openedCommitment (s : State L) (call : Call) : Option (U8Array 32) :=
  (opening call).bind fun o => s.spendTagCommitments o.1

/-- The commitment has joined, and no unused tag holds it. -/
def Closed (s : State L) (c : U8Array 32) : Prop :=
  (s.commitmentIndex c).isSome = true ∧
    ∀ t, s.spendTagCommitments t = some c → s.spendTagUsed t = true

/-- An indexed commitment is under the tags that held it before the call. -/
theorem held_of_apply (hok : apply T s x = .ok s') (hc : (s.commitmentIndex c).isSome = true)
    {t : U8Array 32} (ht : s'.spendTagCommitments t = some c) :
    s.spendTagCommitments t = some c := by
  rw [spendTagCommitments_of_apply hok] at ht
  refine (registerNotes_eq_some ht).resolve_left fun hnew => ?_
  rw [(registered_new hok).2 c hnew] at hc
  cases hc

theorem spendTagUsed_of_apply (hok : apply T s x = .ok s') {t : U8Array 32}
    (ht : s.spendTagUsed t = true) : s'.spendTagUsed t = true := by
  by_contra hunused
  rw [Bool.not_eq_true, (effect_of_apply hok).spendTagUsed, write_true_eq_false] at hunused
  rw [hunused.1] at ht
  cases ht

/-- A call that opens a commitment spends an unused tag that holds it. -/
theorem opened_of_apply (hok : apply T s x = .ok s') (hc : openedCommitment s x.2 = some c) :
    ∃ t, s.spendTagCommitments t = some c ∧ s.spendTagUsed t = false ∧
      s'.spendTagUsed t = true := by
  obtain ⟨⟨t, v⟩, hopening, hheld⟩ := Option.bind_eq_some_iff.1 hc
  refine ⟨t, hheld, ?_⟩
  have hspent : (x.2.footprint s).spentTag = some t := by
    obtain ⟨o, call⟩ := x
    cases call with
    | withdrawPrivate p pi =>
        obtain ⟨-, inputs, hdec, -⟩ := withdrawPrivate_eq_ok.1 hok
        rw [opening, hdec] at hopening
        cases hopening
        rw [Call.footprint, hdec]
        rfl
    | relistPrivate inputs =>
        cases hopening
        rfl
    | _ => cases hopening
  exact ⟨spentTag_fresh hok hspent, spendTagUsed_of_spentTag (effect_of_apply hok) hspent⟩

/-- Opening a commitment closes it for good. -/
theorem opened_keyMark : KeyMark (apply T) State.TagsBind (fun _ x => x.2.IsV1)
    (fun s x => openedCommitment s x.2) Closed where
  invariant _ _ _ h hv1 hok := h.step hv1 hok
  fresh s x s' c _ _ hok hc := by
    obtain ⟨t, hheld, hunused, -⟩ := opened_of_apply hok hc
    rintro ⟨-, hclosed⟩
    rw [hclosed t hheld] at hunused
    cases hunused
  marks s x s' c hbind hv1 hok hc := by
    obtain ⟨t, hheld, -, hused⟩ := opened_of_apply hok hc
    have hindexed := hbind.joined t c hheld
    refine ⟨(commitmentIndex_of_apply hok hv1).2 (.inl hindexed), fun t' ht' => ?_⟩
    rw [hbind.inj t' t c (held_of_apply hok hindexed ht') hheld]
    exact hused
  kept s x s' c _ hv1 hok hclosed := by
    obtain ⟨hindexed, hused⟩ := hclosed
    exact ⟨(commitmentIndex_of_apply hok hv1).2 (.inl hindexed), fun t ht =>
      spendTagUsed_of_apply hok (hused t (held_of_apply hok hindexed ht))⟩

/-- From a storage in which different tags hold different, indexed commitments, no run
of v1 calls opens a commitment twice. -/
theorem commitments_opened_once (T : Config A L) (s : State L)
    (hinj : ∀ t t' c, s.spendTagCommitments t = some c → s.spendTagCommitments t' = some c →
      t = t')
    (hindexed : ∀ t c, s.spendTagCommitments t = some c → (s.commitmentIndex c).isSome = true)
    (xs : List (Extrinsic A)) (hv1 : ∀ x ∈ xs, x.2.IsV1) :
    ((history (apply T) s xs).filterMap fun e => openedCommitment e.1 e.2.2).Nodup :=
  opened_keyMark.nodup_history (J := State.TagsBind) ⟨hinj, hindexed⟩
    fun e he => hv1 e.2 (mem_of_mem_history he)

section Example

/-- The storage of `legacyNotes` with its two commitments indexed. -/
def indexedNotes : State (U8Array 32 → ℕ) :=
  { legacyNotes with
    commitmentIndex := fun c =>
      if c = U8Array.ofNat 32 5 then some 0 else if c = U8Array.ofNat 32 4 then some 1 else none }

theorem indexedNotes_held {t c : U8Array 32} (h : indexedNotes.spendTagCommitments t = some c) :
    (t = U8Array.zero 32 ∧ c = U8Array.ofNat 32 5) ∨
      (t = U8Array.ofNat 32 1 ∧ c = U8Array.ofNat 32 4) := by
  simp only [indexedNotes, legacyNotes] at h
  split_ifs at h with hzero hone
  · exact .inl ⟨hzero, (Option.some.inj h).symm⟩
  · exact .inr ⟨hone, (Option.some.inj h).symm⟩

/-- The note of value four is withdrawn, twice as far as its holder is concerned. -/
def withdrawTwice : List (Extrinsic (U8Array 32)) :=
  [(.none, .withdrawPrivate [] (withdrawalOf 4).encode),
    (.none, .withdrawPrivate [] (withdrawalOf 4).encode)]

theorem withdrawTwice_succeeds :
    ∃ s', apply plainConfig indexedNotes (.none, .withdrawPrivate [] (withdrawalOf 4).encode) =
      .ok s' := by
  have hpay : balances.transfer indexedNotes.ledger (U8Array.zero 32) (U8Array.ofNat 32 2) 4
      .allowDeath = some _ := balances_transfer_of_le (by decide) _ _
  have hopens : plainVerifier.verifyCommitment 4 (U8Array.zero 32) (U8Array.ofNat 32 4) = true :=
    decide_eq_true (congrArg (U8Array.ofNat 32) (rfl : (4 : UInt64).toNat = 4).symm)
  exact ⟨_, withdrawPrivate_eq_ok.2 ⟨rfl, withdrawalOf 4,
    WithdrawInputs.decode_encode (by simp [withdrawalOf]), rfl, rfl,
    ⟨U8Array.ofNat 32 4, rfl, hopens⟩, rfl, _,
    payFromPool_eq_ok.2 ⟨U8Array.ofNat 32 2, rfl, _, hpay, rfl⟩, rfl⟩⟩

theorem withdrawTwice_opened_once :
    (∃ s', apply plainConfig indexedNotes
      (.none, .withdrawPrivate [] (withdrawalOf 4).encode) = .ok s') ∧
      ((history (apply plainConfig) indexedNotes withdrawTwice).filterMap fun e =>
        openedCommitment e.1 e.2.2).Nodup := by
  have hne : U8Array.ofNat 32 5 ≠ U8Array.ofNat 32 4 := by decide
  refine ⟨withdrawTwice_succeeds, commitments_opened_once plainConfig indexedNotes
    (fun t t' c h h' => ?_) (fun t c h => ?_) withdrawTwice fun x hx => ?_⟩
  · rcases indexedNotes_held h with ⟨rfl, rfl⟩ | ⟨rfl, rfl⟩ <;>
      rcases indexedNotes_held h' with ⟨rfl, hc⟩ | ⟨rfl, hc⟩
    · rfl
    · exact absurd hc hne
    · exact absurd hc.symm hne
    · rfl
  · rcases indexedNotes_held h with ⟨-, rfl⟩ | ⟨-, rfl⟩ <;> rfl
  · rcases List.mem_pair.1 hx with rfl | rfl <;> trivial

end Example

end NullaRelay.ProofHub
