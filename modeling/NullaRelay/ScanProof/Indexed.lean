import NullaRelay.ScanProof.Effects
import NullaRelay.ScanProof.Marks
import NullaRelay.ScanProof.NotePurchases

/-!
# The notes in the tree

`CommitmentIndex` holds the notes that deposits, transfers and the change of purchases
have inserted. No call takes a note out of it.
-/

namespace NullaRelay.ScanProof

open NullaRelay.Frame

variable {A L : Type} {T : Config A L} {s s' : State L} {c : U8Array 32}

/-- The note is in the tree. -/
def Indexed (s : State L) (c : U8Array 32) : Prop := (s.commitmentIndex c).isSome

/-- The notes that a call inserts when it succeeds. -/
def Call.inserted {R : ℕ} : Call R → List (U8Array 32)
  | .depositPublic commitment _ _ => (copyFromSlice 32 commitment).toList
  | .submitProof _ _ pi _ =>
      ((ProofPublicInputs.decode pi).map ProofPublicInputs.newCommitments).getD []
  | .purchaseRwa _ _ _ _ _ _ change => change.toList
  | .purchaseAccess _ _ _ _ _ _ change => change.toList
  | _ => []

/-- The notes that a call inserts are those that its effect puts under a new root. -/
theorem Call.inserted_eq {R : ℕ} (call : Call R) : call.inserted = call.newNotes.getD [] := by
  cases call with
  | depositPublic commitment rp hints =>
      rw [Call.inserted, Call.newNotes]
      cases copyFromSlice 32 commitment <;> rfl
  | purchaseRwa input p n id tx oc change => cases change <;> rfl
  | purchaseAccess input p n id tx ac change => cases change <;> rfl
  | _ => rfl

/-- After a call the tree holds the notes from before and the ones inserted. -/
theorem dispatch_indexed {o : Origin A} {call : Call T.maxRangeProofSize}
    (h : dispatch T s o call = .ok s') : Indexed s' c ↔ Indexed s c ∨ c ∈ call.inserted := by
  have heff : NoteEffect T s.notes s'.notes call.newNotes := (dispatch_effect h).notes
  rw [Call.inserted_eq]
  cases hnotes : call.newNotes with
  | none =>
      rw [hnotes] at heff
      have hindex : s'.commitmentIndex = s.commitmentIndex :=
        congrArg NoteStore.commitmentIndex heff
      simp [Indexed, hindex]
  | some cs =>
      rw [hnotes] at heff
      have hindex : s'.commitmentIndex =
          NoteTree.indexAll s.commitmentIndex s.leaves.val.length cs := heff.commitmentIndex
      rw [Indexed, hindex, NoteTree.isSome_indexAll]
      rfl

theorem apply_indexed {x : Extrinsic A T.maxRangeProofSize} (h : apply T s x = .ok s') :
    Indexed s' c ↔ Indexed s c ∨ c ∈ x.call.inserted :=
  dispatch_indexed (apply_eq_ok.1 h).2

end NullaRelay.ScanProof
