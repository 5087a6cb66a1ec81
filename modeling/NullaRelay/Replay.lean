import NullaRelay.ProofHub.SpendTags
import NullaRelay.ScanProof.CoinLane
import NullaRelay.ScanProof.Indexed
import NullaRelay.ScanProof.NoteLane

/-!
# Replays

Most calls of the two pools come without a signature and without a nonce, so the
chain itself does not keep an extrinsic from being included twice. Each call uses
something up instead: a nullifier, a spend tag or a serial, or the place of a new
note, leaf or coin. None of these is ever given back, hence no call but those of
the administrator goes through twice, under whichever origin and in whichever
states.
-/

namespace NullaRelay

open NullaRelay.Frame Transition

theorem isSome_insertAt {α β : Type} [DecidableEq α] (m : α → Option β) (k c : α) (v : β) :
    (insertAt m k (some v) c).isSome ↔ (m c).isSome ∨ c = k := by
  by_cases hc : c = k
  · simp [hc]
  · simp [hc]

namespace ProofHub

variable {A L : Type} {T : Config A L} {s s' : State L} {x : Extrinsic A}

theorem write_true_eq_true {α : Type} [DecidableEq α] (m : α → Bool) (o : Option α) (k : α) :
    write m (o.map (·, true)) k = true ↔ m k = true ∨ k ∈ o.toList := by
  cases o with
  | none => simp [write]
  | some k' =>
      by_cases hk : k = k'
      · simp [write, hk]
      · simp [write, hk]

theorem spentNullifier_keyGuard (T : Config A L) :
    KeyGuard (apply T) (fun _ _ => True) (fun s x => (x.2.footprint s).nullifier.toList)
      (fun s n => s.nullifierUsed n = true) := by
  refine KeyGuard.of_used_iff (fun _ _ _ _ => Option.toList_nodup _) ?_ ?_
  · intro s x s' h n hn
    simp [nullifier_fresh h (Option.mem_toList.1 hn)]
  · intro s x s' n h
    rw [(effect_of_apply h).nullifierUsed]
    exact write_true_eq_true _ _ n

theorem spentTag_keyGuard (T : Config A L) :
    KeyGuard (apply T) (fun _ _ => True) (fun s x => (x.2.footprint s).spentTag.toList)
      (fun s t => s.spendTagUsed t = true) := by
  refine KeyGuard.of_used_iff (fun _ _ _ _ => Option.toList_nodup _) ?_ ?_
  · intro s x s' h t ht
    simp [spentTag_fresh h (Option.mem_toList.1 ht)]
  · intro s x s' t h
    rw [(effect_of_apply h).spendTagUsed]
    exact write_true_eq_true _ _ t

theorem leaf_keyGuard (T : Config A L) :
    KeyGuard (apply T) (fun _ _ => True) (fun s x => (x.2.footprint s).leaf.toList)
      (fun s l => (s.leafIndexV2 l).isSome) := by
  refine KeyGuard.of_used_iff (fun _ _ _ _ => Option.toList_nodup _) ?_ ?_
  · intro s x s' h l hl
    have htree := (effect_of_apply h).tree
    rw [Option.mem_toList.1 hl] at htree
    simp [htree.1]
  · intro s x s' l h
    have htree := (effect_of_apply h).tree
    cases hleaf : (x.2.footprint s).leaf with
    | none =>
        rw [hleaf] at htree
        simp [htree.2.2.2]
    | some leaf =>
        rw [hleaf] at htree
        rw [htree.2.2.2, isSome_insertAt]
        simp

/-- What a call uses up: a nullifier, a spend tag, the place of a leaf. -/
def Call.usedUp (s : State L) (call : Call) : List (U8Array 32 ⊕ U8Array 32 ⊕ U8Array 32) :=
  (call.footprint s).nullifier.toList.map Sum.inl ++
    ((call.footprint s).spentTag.toList.map Sum.inl ++
      (call.footprint s).leaf.toList.map Sum.inr).map Sum.inr

/-- It does not depend on the state. -/
theorem usedUp_eq (s s' : State L) (call : Call) : call.usedUp s = call.usedUp s' := by
  have hkeys : (call.footprint s).nullifier = (call.footprint s').nullifier ∧
      (call.footprint s).spentTag = (call.footprint s').spentTag ∧
      (call.footprint s).leaf = (call.footprint s').leaf := by
    cases call with
    | purchaseRwa p pi =>
        cases hdec : RwaPurchaseInputs.decode pi <;>
          simp [Call.footprint, hdec, RwaPurchaseInputs.footprint]
    | purchaseRwaV2 auth pi p =>
        cases hdec : SpendPublicV2.decode pi <;>
          simp [Call.footprint, hdec, SpendPublicV2.footprint]
    | _ => exact ⟨rfl, rfl, rfl⟩
  rw [Call.usedUp, Call.usedUp, hkeys.1, hkeys.2.1, hkeys.2.2]

/-- Only the administrator's calls use nothing up. -/
theorem root_of_usedUp_nil (h : apply T s x = .ok s') (hnil : x.2.usedUp s = []) :
    x.1 = .root := by
  obtain ⟨o, call⟩ := x
  simp only [Call.usedUp, List.append_eq_nil_iff, List.map_eq_nil_iff,
    Option.toList_eq_nil_iff] at hnil
  obtain ⟨hnullifier, htag, hleaf⟩ := hnil
  cases call with
  | depositPublic c rp rpc t hints => simp [apply, dispatch, depositPublic] at h
  | setRwaPrice id price =>
      obtain ⟨_, hroot, -⟩ := bind_eq_ok.1 h
      exact ensureRoot_eq_ok.1 hroot
  | setAccessConfig id price acc =>
      obtain ⟨_, hroot, -⟩ := bind_eq_ok.1 h
      exact ensureRoot_eq_ok.1 hroot
  | purchaseRwa p pi =>
      obtain ⟨-, i, rp, hspend, -⟩ := purchaseRwa_eq_ok.1 h
      rw [Call.footprint, hspend.decoded] at hnullifier
      cases hnullifier
  | purchaseAccess p pi =>
      obtain ⟨-, i, cfg, rp, -, hspend, -⟩ := purchaseAccess_eq_ok.1 h
      rw [Call.footprint, hspend.decoded] at hnullifier
      cases hnullifier
  | withdrawPrivate p pi =>
      obtain ⟨-, i, hdec, -⟩ := withdrawPrivate_eq_ok.1 h
      rw [Call.footprint, hdec] at htag
      cases htag
  | relistPrivate i => cases htag
  | depositV2 leaf amount p hints => cases hleaf
  | purchaseRwaV2 auth pi p =>
      obtain ⟨-, i, hdec, -⟩ := purchaseRwaV2_eq_ok.1 h
      rw [Call.footprint, hdec] at hnullifier
      cases hnullifier
  | purchaseAccessV2 auth pi p =>
      obtain ⟨-, i, cfg, hdec, -⟩ := purchaseAccessV2_eq_ok.1 h
      rw [Call.footprint, hdec] at hnullifier
      cases hnullifier
  | withdrawV2 auth pi p =>
      obtain ⟨-, i, hdec, -⟩ := withdrawV2_eq_ok.1 h
      rw [Call.footprint, hdec] at hnullifier
      cases hnullifier

/-- In every run, from any storage, a call that goes through twice is one of the
administrator's: what else was accepted once is rejected from then on. -/
theorem replay_rejected (T : Config A L) (s : State L) (xs : List (Extrinsic A)) :
    (history (apply T) s xs).Pairwise fun e e' => e.2.2 = e'.2.2 → e.2.1 = .root := by
  have hguard := (spentNullifier_keyGuard T).sum ((spentTag_keyGuard T).sum (leaf_keyGuard T))
  have hrepeated : (history (apply T) s xs).Pairwise fun e e' =>
      e.2.2.usedUp e.1 = e'.2.2.usedUp e'.1 → e.2.2.usedUp e.1 = [] :=
    hguard.repeated_keys s xs fun _ _ => trivial
  refine hrepeated.imp_of_mem ?_
  intro e e' he _ hnil hcall
  obtain ⟨t, ht⟩ := ok_of_mem_history he
  have hsame : e.2.2.usedUp e.1 = e'.2.2.usedUp e'.1 := by rw [hcall, usedUp_eq e.1 e'.1]
  exact root_of_usedUp_nil ht (hnil hsame)

end ProofHub

namespace ScanProof

variable {A L : Type} {T : Config A L} {s s' : State L}

theorem nullifierBytes_keyGuard (T : Config A L) :
    KeyGuard (apply T) (fun _ _ => True) (fun _ x => x.call.nullifiers)
      (fun s n => s.nullifierUsed n = true) := by
  refine KeyGuard.of_used_iff (fun _ _ _ h => apply_nullifiers_nodup h) ?_ ?_
  · intro s x s' h n hn
    simp [(apply_marks h).nullifier_fresh n hn]
  · intro s x s' n h
    rw [(apply_marks h).nullifierUsed, markAll_eq_true]

/-- The notes that a call inserts are distinct and were not in the tree. -/
theorem inserted_fresh {x : Extrinsic A T.maxRangeProofSize} (h : apply T s x = .ok s') :
    x.call.inserted.Nodup ∧ ∀ c ∈ x.call.inserted, ¬ Indexed s c := by
  have heff : NoteEffect T s.notes s'.notes x.call.newNotes := (apply_effect h).notes
  rw [Call.inserted_eq]
  cases hnotes : x.call.newNotes with
  | none => simp
  | some cs =>
      rw [hnotes] at heff
      refine ⟨heff.nodup, fun c hc => ?_⟩
      have hnew : s.commitmentIndex c = none := heff.fresh c hc
      simp [Indexed, hnew]

theorem inserted_keyGuard (T : Config A L) :
    KeyGuard (apply T) (fun _ _ => True) (fun _ x => x.call.inserted) Indexed :=
  KeyGuard.of_used_iff (fun _ _ _ h => (inserted_fresh h).1) (fun _ _ _ h => (inserted_fresh h).2)
    fun _ _ _ _ h => apply_indexed h

theorem newCoin_keyGuard (T : Config A L) :
    KeyGuard (apply T) (fun _ _ => True) (fun _ x => x.call.newCoin.toList)
      (fun s c => (s.coinLocation c).isSome) := by
  refine KeyGuard.of_used_iff (fun _ _ _ _ => Option.toList_nodup _) ?_ ?_
  · intro s x s' h c hc
    have heff : CoinEffect s s'.coins x.call.newCoin := (apply_effect h).coins
    rw [Option.mem_toList.1 hc] at heff
    simp [heff.fresh]
  · intro s x s' c h
    have heff : CoinEffect s s'.coins x.call.newCoin := (apply_effect h).coins
    cases hcoin : x.call.newCoin with
    | none =>
        rw [hcoin] at heff
        have hlocation : s'.coinLocation = s.coinLocation := congrArg CoinStore.coinLocation heff
        simp [hlocation]
    | some coin =>
        rw [hcoin] at heff
        have hlocation : s'.coinLocation = _ := heff.coinLocation
        rw [hlocation, isSome_insertAt]
        simp

/-- What a call uses up: nullifiers and serials, the places of notes and of a
coin. -/
def Call.usedUp {R : ℕ} (call : Call R) :
    List (U8Array 32 ⊕ U8Array 32 ⊕ U8Array 32 ⊕ U8Array 32) :=
  call.nullifiers.map Sum.inl ++ (call.serials.map Sum.inl ++
    (call.inserted.map Sum.inl ++ call.newCoin.toList.map Sum.inr).map Sum.inr).map Sum.inr

/-- A submission that spends no note and creates none. -/
def Call.EmptySubmission {R : ℕ} (call : Call R) : Prop :=
  ∃ proof rangeProof publicInputs hints inputs,
    call = .submitProof proof rangeProof publicInputs hints ∧
      ProofPublicInputs.decode publicInputs = some inputs ∧
      inputs.nullifiers = [] ∧ inputs.newCommitments = []

/-- Only the administrator's calls and empty submissions use nothing up. -/
theorem root_of_usedUp_nil {x : Extrinsic A T.maxRangeProofSize} (h : apply T s x = .ok s')
    (hnil : x.call.usedUp = []) : x.origin = .root ∨ x.call.EmptySubmission := by
  have hdispatch := (apply_eq_ok.1 h).2
  simp only [Call.usedUp, List.append_eq_nil_iff, List.map_eq_nil_iff,
    Option.toList_eq_nil_iff] at hnil
  obtain ⟨hnullifiers, hserials, hnotes, hcoin⟩ := hnil
  cases hcall : x.call with
  | depositPublic commitment rp hints =>
      rw [hcall] at hdispatch hnotes
      obtain ⟨_, -, c, rfl, -⟩ := depositPublic_eq_ok.1 hdispatch
      have hcopy : copyFromSlice 32 c.toList = some c := copyFromSlice_eq_some.2 rfl
      simp [Call.inserted, hcopy] at hnotes
  | submitProof p rp pi hints =>
      rw [hcall] at hdispatch hnotes hnullifiers
      obtain ⟨inputs, leaves, hcheck, -⟩ := submitProof_of_ok hdispatch
      rw [Call.nullifiers, hcheck.decoded] at hnullifiers
      rw [Call.inserted, hcheck.decoded] at hnotes
      exact .inr ⟨p, rp, pi, hints, inputs, rfl, hcheck.decoded, hnullifiers, hnotes⟩
  | purchaseRwa c p n id tx oc change | purchaseAccess c p n id tx ac change
  | withdrawPrivate c n p dest v =>
      rw [hcall] at hnullifiers
      cases hnullifiers
  | setRwaPrice id price | setAccessConfig id price acc =>
      rw [hcall] at hdispatch
      obtain ⟨_, hroot, -⟩ := bind_eq_ok.1 hdispatch
      exact .inl (ensureRoot_eq_ok.1 hroot)
  | depositCoin coin amount p =>
      rw [hcall] at hcoin
      cases hcoin
  | purchaseCoin pi p g =>
      rw [hcall] at hdispatch hserials
      obtain ⟨-, inputs, hdec, -⟩ := purchaseCoin_eq_ok.1 hdispatch
      simp [Call.serials, hdec] at hserials
  | withdrawCoin pi p =>
      rw [hcall] at hdispatch hserials
      obtain ⟨-, inputs, hdec, -⟩ := withdrawCoin_eq_ok.1 hdispatch
      simp [Call.serials, hdec] at hserials
  | purchaseAccessCoin pi p g =>
      rw [hcall] at hdispatch hserials
      obtain ⟨-, inputs, hdec, -⟩ := purchaseAccessCoin_eq_ok.1 hdispatch
      simp [Call.serials, hdec] at hserials

/-- In every run, from any storage, a call that goes through twice is one of the
administrator's or a submission without notes. -/
theorem call_not_replayed (T : Config A L) (s : State L)
    (xs : List (Extrinsic A T.maxRangeProofSize)) :
    (history (apply T) s xs).Pairwise fun e e' =>
      e.2.call = e'.2.call → e.2.origin = .root ∨ e.2.call.EmptySubmission := by
  have hguard := (nullifierBytes_keyGuard T).sum ((serial_keyGuard T).sum
    ((inserted_keyGuard T).sum (newCoin_keyGuard T)))
  have hrepeated : (history (apply T) s xs).Pairwise fun e e' =>
      e.2.call.usedUp = e'.2.call.usedUp → e.2.call.usedUp = [] :=
    hguard.repeated_keys s xs fun _ _ => trivial
  refine hrepeated.imp_of_mem ?_
  intro e e' he _ hnil hcall
  obtain ⟨t, ht⟩ := ok_of_mem_history he
  exact root_of_usedUp_nil ht (hnil (congrArg Call.usedUp hcall))

end ScanProof

end NullaRelay
