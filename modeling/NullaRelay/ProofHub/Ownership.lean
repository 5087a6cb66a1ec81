import NullaRelay.ProofHub.Accepting

/-!
# Ownership records of ProofHub

A purchase of an RWA and a relist write an ownership record under a transaction
id that their caller chooses, and a relist consumes the record that it names.
Nothing checks that the id is new: a second write replaces the commitment of a
record that is still open, and a record written under a consumed id is consumed
from the start. Records are kept exactly as long as every write finds its id
free.
-/

namespace NullaRelay.ProofHub

open NullaRelay.Frame V2 Transition

variable {A L : Type} {T : Config A L} {s s' : State L} {f : Footprint}

/-- What is promised of ownership records: an open one keeps its commitment and
stays open unless the call consumes it, and a new one is open. -/
structure KeepsRecords (f : Footprint) (s s' : State L) : Prop where
  kept : ∀ t oc, s.ownershipCommitments t = some oc → s.ownershipUsed t = false →
    s'.ownershipCommitments t = some oc ∧ (f.consumed ≠ some t → s'.ownershipUsed t = false)
  created : ∀ r ∈ f.record, s'.ownershipUsed r.1 = false

/-- The id that is written is open, is not the one consumed, and holds no other
commitment. -/
def FreshRecord (s : State L) (f : Footprint) : Prop :=
  ∀ r ∈ f.record, s.ownershipUsed r.1 = false ∧ f.consumed ≠ some r.1 ∧
    ∀ oc ∈ s.ownershipCommitments r.1, oc = r.2

theorem ownershipUsed_eq_false (h : Effect T s s' f) (t : U8Array 16) :
    s'.ownershipUsed t = false ↔ s.ownershipUsed t = false ∧ f.consumed ≠ some t := by
  rw [h.ownershipUsed]
  exact write_true_eq_false _ _ _

theorem ownershipCommitments_eq_some (h : Effect T s s' f) (t : U8Array 16) (oc : U8Array 32) :
    s'.ownershipCommitments t = some oc ↔
      f.record = some (t, oc) ∨
        s.ownershipCommitments t = some oc ∧ ∀ oc', f.record ≠ some (t, oc') := by
  rw [h.ownershipCommitments]
  cases hr : f.record with
  | none => simp [write]
  | some r =>
      obtain ⟨t', oc'⟩ := r
      by_cases ht : t = t'
      · subst ht
        simp [write]
      · simp [write, ht, Ne.symm ht]

/-- One call keeps the records exactly when its own is fresh. -/
theorem keepsRecords_iff (h : Effect T s s' f) : KeepsRecords f s s' ↔ FreshRecord s f := by
  constructor
  · rintro ⟨hkept, hcreated⟩ ⟨t, oc⟩ hr
    have hopen : s'.ownershipUsed t = false := hcreated _ hr
    obtain ⟨hunused, hconsumed⟩ := (ownershipUsed_eq_false h t).1 hopen
    refine ⟨hunused, hconsumed, fun oc' hoc' => ?_⟩
    have hstays : s'.ownershipCommitments t = some oc' := (hkept t oc' hoc' hunused).1
    have hwritten : s'.ownershipCommitments t = some oc :=
      (ownershipCommitments_eq_some h t oc).2 (.inl hr)
    exact Option.some.inj (hstays.symm.trans hwritten)
  · intro hfresh
    constructor
    · intro t oc hoc hunused
      refine ⟨(ownershipCommitments_eq_some h t oc).2 ?_, fun hne =>
        (ownershipUsed_eq_false h t).2 ⟨hunused, hne⟩⟩
      by_cases hr : ∃ oc', f.record = some (t, oc')
      · obtain ⟨oc', hr⟩ := hr
        have heq : oc = oc' := (hfresh _ hr).2.2 oc hoc
        exact .inl (by rw [hr, heq])
      · exact .inr ⟨hoc, not_exists.1 hr⟩
    · intro r hr
      obtain ⟨hunused, hconsumed, -⟩ := hfresh r hr
      exact (ownershipUsed_eq_false h r.1).2 ⟨hunused, hconsumed⟩

/-- Over a run from any storage the records are kept exactly when every record
that is written is fresh. -/
theorem records_kept_iff_fresh (T : Config A L) (s : State L) (xs : List (Extrinsic A)) :
    (∀ e ∈ history (apply T) s xs,
        KeepsRecords (e.2.2.footprint e.1) e.1 (next (apply T) e.1 e.2)) ↔
      ∀ e ∈ history (apply T) s xs, FreshRecord e.1 (e.2.2.footprint e.1) := by
  refine forall₂_congr fun e he => ?_
  obtain ⟨s', hs'⟩ := ok_of_mem_history he
  rw [next_ok hs']
  exact keepsRecords_iff (effect_of_apply hs')

/-- Two purchases under one transaction id: the second replaces the record of the
first. -/
theorem rebuy_overwrites :
    ¬ ∀ xs : List (Extrinsic (U8Array 32)),
      ∀ e ∈ history (apply (acceptingConfig fun _ => U8Array.zero 32)) (genesis tenEach) xs,
        KeepsRecords (e.2.2.footprint e.1) e.1
          (next (apply (acceptingConfig fun _ => U8Array.zero 32)) e.1 e.2) := by
  intro hclaim
  obtain ⟨s₀, s₁, s₂, hs₀, hopen, h₁, h₂, heff₁, heff₂⟩ := rebuy_succeeds fun _ => U8Array.zero 32
  have hkeeps := hclaim (openMarket ++ [rebuyCall s₀ 1, rebuyCall s₁ 2]) (s₁, rebuyCall s₁ 2) (by
    rw [history_append, hs₀, history_cons_ok h₁, history_cons_ok h₂]
    simp)
  rw [next_ok h₂] at hkeeps
  have hfirst : s₁.ownershipCommitments (U8Array.zero 16) = some (U8Array.ofNat 32 1) :=
    (ownershipCommitments_eq_some heff₁ _ _).2 (.inl rfl)
  have hunused : s₁.ownershipUsed (U8Array.zero 16) = false :=
    (ownershipUsed_eq_false heff₁ _).2 ⟨hopen.ownershipUsed _, by simp [SpendPublicV2.footprint]⟩
  have hstays : s₂.ownershipCommitments (U8Array.zero 16) = some (U8Array.ofNat 32 1) :=
    (hkeeps.kept _ _ hfirst hunused).1
  have hsecond : s₂.ownershipCommitments (U8Array.zero 16) = some (U8Array.ofNat 32 2) :=
    (ownershipCommitments_eq_some heff₂ _ _).2 (.inl rfl)
  have hsame : U8Array.ofNat 32 1 = U8Array.ofNat 32 2 :=
    Option.some.inj (hstays.symm.trans hsecond)
  exact absurd hsame (by decide)

end NullaRelay.ProofHub
