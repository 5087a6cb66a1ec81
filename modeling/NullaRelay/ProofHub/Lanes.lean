import NullaRelay.ProofHub.ChangeNotes

/-!
# The nullifiers of the two lanes of ProofHub

Both lanes mark their nullifiers in one map. The second lane derives a nullifier
from the blinding of the spent note; the first takes it from the public inputs
and checks only that it is unused. A call of the first lane leaves a note of the
second spendable exactly when it does not name that note's nullifier.
-/

namespace NullaRelay.ProofHub

open NullaRelay.Frame V2

variable {A L : Type} {T : Config A L} {s s' : State L} {o : Origin A} {call : Call}

/-- The calls on notes of the first lane. -/
def Call.IsV1 : Call → Prop
  | .purchaseRwa .. | .purchaseAccess .. | .withdrawPrivate .. | .relistPrivate _ => True
  | _ => False

/-- The nullifier in the public inputs of a v1 purchase. -/
def Call.namedNullifier : Call → Option (U8Array 32)
  | .purchaseRwa _ pi | .purchaseAccess _ pi =>
      (RwaPurchaseInputs.decode pi).map RwaPurchaseInputs.nullifier
  | _ => none

theorem footprint_nullifier (h : call.IsV1) :
    (call.footprint s).nullifier = call.namedNullifier := by
  cases call with
  | purchaseRwa p pi =>
      simp only [Call.footprint, Call.namedNullifier]
      cases RwaPurchaseInputs.decode pi <;> rfl
  | purchaseAccess p pi =>
      simp only [Call.footprint, Call.namedNullifier]
      cases RwaPurchaseInputs.decode pi <;> rfl
  | withdrawPrivate p pi =>
      simp only [Call.footprint, Call.namedNullifier]
      cases WithdrawInputs.decode pi <;> rfl
  | relistPrivate inputs => rfl
  | _ => exact h.elim

theorem nullifierUsed_eq_false {f : Footprint} (h : Effect T s s' f) (n : U8Array 32) :
    s'.nullifierUsed n = false ↔ s.nullifierUsed n = false ∧ f.nullifier ≠ some n := by
  rw [h.nullifierUsed]
  exact write_true_eq_false _ _ _

/-- A note of the second lane with the blinding `b`, in the tree or not, whose
nullifier is unused: a v1 call leaves it so exactly when its public inputs do not
name this nullifier. -/
theorem note_kept_iff_unnamed (T : Config A L) (hv1 : call.IsV1)
    (h : apply T s (o, call) = .ok s') {b : U8Array 32}
    (hunused : s.nullifierUsed (nullifierHash (poseidonHashes T.blake3) b) = false) :
    s'.nullifierUsed (nullifierHash (poseidonHashes T.blake3) b) = false ↔
      call.namedNullifier ≠ some (nullifierHash (poseidonHashes T.blake3) b) := by
  rw [nullifierUsed_eq_false (effect_of_apply h), footprint_nullifier hv1]
  exact and_iff_right hunused

section Example

/-- The note of value one with blinding zero and key digest zero. -/
def victimLeaf : U8Array 32 :=
  noteHash (poseidonHashes plainConfig.blake3) 1 (U8Array.zero 32) (U8Array.zero 32)

def victimNullifier : U8Array 32 :=
  nullifierHash (poseidonHashes plainConfig.blake3) (U8Array.zero 32)

/-- The purchase of `purchaseWithChange` under a nullifier of the caller's choice. -/
def purchaseNaming (nullifier : U8Array 32) : RwaPurchaseInputs :=
  { purchaseWithChange (U8Array.ofNat 32 4) with nullifier }

def namingCall (nullifier : U8Array 32) : Extrinsic (U8Array 32) :=
  (.none, .purchaseRwa [] (purchaseNaming nullifier).encode)

theorem purchaseNaming_decode (n : U8Array 32) :
    RwaPurchaseInputs.decode (purchaseNaming n).encode = some (purchaseNaming n) :=
  RwaPurchaseInputs.decode_encode (by simp [purchaseNaming, purchaseWithChange])
    (by simp [purchaseNaming, purchaseWithChange])

/-- The storage with the legacy notes and the leaf of the note in the v2 tree. -/
def notesOfBothLanes : State (U8Array 32 → ℕ) :=
  { legacyNotes with leafIndexV2 := insertAt legacyNotes.leafIndexV2 victimLeaf (some 0) }

theorem namingCall_succeeds (n : U8Array 32) :
    ∃ s', apply plainConfig notesOfBothLanes (namingCall n) = .ok s' := by
  have hspend : TagSpendable plainConfig notesOfBothLanes [] (purchaseNaming n).encode
      (purchaseNaming n) 1 (U8Array.ofNat 32 4) :=
    { decoded := purchaseNaming_decode n
      fresh := rfl
      registered := rfl
      unused := rfl
      priced := by decide
      resolved := rfl
      proved := ⟨U8Array.ofNat 32 5, rfl, plainVerifier_four_of_five _⟩
      signed := rfl }
  exact ⟨_, purchaseRwa_eq_ok.2 ⟨rfl, _, _, hspend, rfl⟩⟩

theorem namingCall_isV1 (n : U8Array 32) : (namingCall n).2.IsV1 := trivial

theorem namingCall_names (n : U8Array 32) : (namingCall n).2.namedNullifier = some n := by
  rw [namingCall, Call.namedNullifier, purchaseNaming_decode]
  rfl

/-- A purchase with a legacy note marks the nullifier of the note in the v2 tree. -/
theorem legacy_purchase_locks_note :
    ¬ ∀ (s s' : State (U8Array 32 → ℕ)) (call : Call) (v : UInt64) (b pkd : U8Array 32),
      call.IsV1 → apply plainConfig s (.none, call) = .ok s' →
      (s.leafIndexV2 (noteHash (poseidonHashes plainConfig.blake3) v b pkd)).isSome →
      s.nullifierUsed (nullifierHash (poseidonHashes plainConfig.blake3) b) = false →
        s'.nullifierUsed (nullifierHash (poseidonHashes plainConfig.blake3) b) = false := by
  intro hclaim
  obtain ⟨s', hs'⟩ := namingCall_succeeds victimNullifier
  have hleaf : (notesOfBothLanes.leafIndexV2 victimLeaf).isSome := by
    simp [notesOfBothLanes]
  have hkept : s'.nullifierUsed victimNullifier = false :=
    hclaim notesOfBothLanes s' _ 1 (U8Array.zero 32) (U8Array.zero 32) (namingCall_isV1 _) hs'
      hleaf rfl
  have hunnamed := ((nullifierUsed_eq_false (effect_of_apply hs') victimNullifier).1 hkept).2
  rw [footprint_nullifier (namingCall_isV1 _)] at hunnamed
  exact hunnamed (namingCall_names _)

/-- A purchase that names another nullifier leaves the note alone. -/
theorem legacy_purchase_kept_iff : ∃ s',
    apply plainConfig notesOfBothLanes (namingCall (U8Array.ofNat 32 7)) = .ok s' ∧
      (s'.nullifierUsed (nullifierHash (poseidonHashes plainConfig.blake3) (U8Array.zero 32)) =
          false ↔
        (namingCall (U8Array.ofNat 32 7)).2.namedNullifier ≠
          some (nullifierHash (poseidonHashes plainConfig.blake3) (U8Array.zero 32))) := by
  obtain ⟨s', hs'⟩ := namingCall_succeeds (U8Array.ofNat 32 7)
  exact ⟨s', hs', note_kept_iff_unnamed plainConfig (namingCall_isV1 _) hs' rfl⟩

end Example

end NullaRelay.ProofHub
