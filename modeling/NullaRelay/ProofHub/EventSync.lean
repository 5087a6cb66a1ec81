import NullaRelay.Foundations.EventLog
import NullaRelay.ProofHub.TreeStorage

/-!
# Reading the v2 tree from the events

A wallet needs the leaves of the tree for the paths of its notes, and reads them
from the events, each with its index and the root after it. Every such event is
right. The purchase of access adds a leaf, too, and its event names none: the tree
that the events rebuild is the pallet's exactly as long as nobody has bought access
with a v2 note.
-/

namespace NullaRelay.ProofHub

open NullaRelay.Frame V2 Transition

variable {hash2 : U8Array 32 → U8Array 32 → U8Array 32} {A L : Type} {T : Config A L}
  {s s' : State L} {leaves : List (U8Array 32)}

/-- A leaf as an event announces it. -/
structure LeafNote where
  leaf : U8Array 32
  index : UInt32
  newRoot : U8Array 32

def Event.leafNote : Event → Option LeafNote
  | .depositV2Accepted leaf index newRoot _ => some { leaf, index, newRoot }
  | .purchaseV2Authorized _ _ leaf index newRoot => some { leaf, index, newRoot }
  | _ => none

/-- The leaves that the events announce, in order. -/
def State.leafNotes (s : State L) : List LeafNote := s.events.filterMap Event.leafNote

/-- The call adds a leaf that no event names. -/
def Call.HidesLeaf : Call → Prop
  | .purchaseAccessV2 .. => True
  | _ => False

/-- The leaf of a call, where its event names it. -/
def Call.shownLeaf (s : State L) : Call → Option (U8Array 32)
  | .purchaseAccessV2 .. => none
  | call => (call.footprint s).leaf

variable (hash2 leaves) in
/-- The announcement names the leaf at its index, and the root that the pallet stored
after it. -/
def LeafNote.Right (n : LeafNote) : Prop :=
  leaves[n.index.toNat]? = some n.leaf ∧ n.newRoot = storedRoot hash2 leaves (n.index.toNat + 1)

variable (hash2 s) in
/-- The announced leaves, inserted in order, make the pallet's tree. -/
def EventsRebuild : Prop :=
  Frontier.insertAll hash2 (s.leafNotes.map LeafNote.leaf) = some s.frontierV2

theorem shownLeaf_of_not_hides {call : Call} (h : ¬ call.HidesLeaf) :
    call.shownLeaf s = (call.footprint s).leaf := by
  cases call with
  | purchaseAccessV2 auth pi p => exact absurd trivial h
  | _ => rfl

theorem not_hides_of_shownLeaf {call : Call} {leaf : U8Array 32}
    (h : call.shownLeaf s = some leaf) : ¬ call.HidesLeaf := by
  cases call with
  | purchaseAccessV2 auth pi p => cases h
  | _ => exact id

theorem leafNotes_depositEvent (e : Event) :
    (s.depositEvent e).leafNotes = s.leafNotes ++ e.leafNote.toList := by
  cases h : e.leafNote <;> simp [State.leafNotes, State.depositEvent, h]

/-- An event that announces no leaf. -/
theorem leafNotes_depositEvent_of_none {e : Event} (h : e.leafNote = none) :
    (s.depositEvent e).leafNotes = s.leafNotes := by
  rw [leafNotes_depositEvent, h, Option.toList_none, List.append_nil]

theorem insertOrKeep_leafNotes (c t : U8Array 32) :
    (insertOrKeep T s c t).leafNotes = s.leafNotes := by
  cases h : s.commitmentIndex c with
  | none =>
      rw [insertOrKeep_of_none h]
      rfl
  | some i => rw [insertOrKeep_of_some h]

theorem insertChange_leafNotes (inputs : RwaPurchaseInputs) (changeRp : U8Array 32) :
    (insertChange T s inputs changeRp).leafNotes = s.leafNotes := by
  unfold insertChange
  split
  · exact (leafNotes_depositEvent_of_none rfl).trans (insertOrKeep_leafNotes _ _)
  · rfl

theorem insertRelistChange_leafNotes (change : Option (U8Array 32 × U8Array 32))
    (ls : List (U8Array 32)) : (insertRelistChange T s change ls).leafNotes = s.leafNotes := by
  unfold insertRelistChange
  cases change with
  | none => rfl
  | some note =>
      cases h : doInsertNote T s note.1 note.2 ls with
      | none =>
          simp only [h]
          rfl
      | some r =>
          obtain ⟨s₁, ls'⟩ := r
          obtain ⟨-, -, rfl⟩ := doInsertNote_eq_some.1 h
          simp only [h]
          exact leafNotes_depositEvent_of_none rfl

theorem payFromPool_leafNotes {account : List UInt8} {amount : UInt64}
    (h : payFromPool T s account amount = .ok s') : s'.leafNotes = s.leafNotes := by
  obtain ⟨_, _, _, _, rfl⟩ := payFromPool_eq_ok.1 h
  rfl

theorem v2Insert_leafNotes {leaf : U8Array 32} (h : v2Insert T s leaf = .ok s') :
    s'.leafNotes = s.leafNotes := by
  obtain ⟨-, frontier, newRoot, -, rfl⟩ := v2Insert_eq_ok.1 h
  rfl

variable (s s') in
/-- The call announces the leaf that it shows, at the end of the tree and with the root
after it. -/
def Announces (call : Call) : Prop :=
  s'.leafNotes = s.leafNotes ++ (call.shownLeaf s).toList.map fun leaf =>
    { leaf, index := s.frontierV2.leafCount, newRoot := s'.currentRootV2 }

theorem announces_of_silent {call : Call} (hshown : call.shownLeaf s = none)
    (hnotes : s'.leafNotes = s.leafNotes) : Announces s s' call := by
  rw [Announces, hshown, hnotes, Option.toList_none, List.map_nil, List.append_nil]

theorem announces_of_shown {call : Call} {leaf : U8Array 32} (hshown : call.shownLeaf s = some leaf)
    (hnotes : s'.leafNotes =
      s.leafNotes ++ [{ leaf, index := s.frontierV2.leafCount, newRoot := s'.currentRootV2 }]) :
    Announces s s' call := by
  rw [Announces, hshown, hnotes]
  rfl

theorem announces_of_apply {x : Extrinsic A} (h : apply T s x = .ok s') :
    Announces s s' x.2 := by
  obtain ⟨o, call⟩ := x
  cases call with
  | depositPublic c rp rpc t hints => simp [apply, dispatch, depositPublic] at h
  | purchaseRwa p pi =>
      obtain ⟨-, inputs, rp, hspend, rfl⟩ := purchaseRwa_eq_ok.1 h
      refine announces_of_silent ?_ ?_
      · rw [shownLeaf_of_not_hides id, Call.footprint, hspend.decoded]
        rfl
      · have hnotes : (rwaPurchased T s inputs rp).leafNotes = s.leafNotes :=
          insertChange_leafNotes inputs rp
        exact (leafNotes_depositEvent_of_none rfl).trans hnotes
  | purchaseAccess p pi =>
      obtain ⟨-, inputs, cfg, rp, -, hspend, s₁, hpay, rfl⟩ := purchaseAccess_eq_ok.1 h
      refine announces_of_silent ?_ ?_
      · rw [shownLeaf_of_not_hides id, Call.footprint, hspend.decoded]
        rfl
      · have hnotes : s₁.leafNotes = s.leafNotes :=
          (payFromPool_leafNotes hpay).trans (insertChange_leafNotes inputs rp)
        exact (leafNotes_depositEvent_of_none rfl).trans hnotes
  | withdrawPrivate p pi =>
      obtain ⟨-, inputs, hdec, -, -, -, -, s₁, hpay, rfl⟩ := withdrawPrivate_eq_ok.1 h
      refine announces_of_silent ?_ ?_
      · rw [shownLeaf_of_not_hides id, Call.footprint, hdec]
        rfl
      · have hnotes := payFromPool_leafNotes hpay
        exact (leafNotes_depositEvent_of_none rfl).trans hnotes
  | relistPrivate inputs =>
      obtain ⟨-, change, hrelist, s₁, ls, hins, rfl⟩ := relistPrivate_eq_ok.1 h
      have hpayment : s₁.leafNotes = s.leafNotes := by
        obtain ⟨-, -, rfl⟩ := doInsertNote_eq_some.1 hins
        rfl
      have hchange : (insertRelistChange T s₁ change ls).leafNotes = s.leafNotes :=
        (insertRelistChange_leafNotes change ls).trans hpayment
      refine announces_of_silent rfl ?_
      exact (leafNotes_depositEvent_of_none rfl).trans
        ((leafNotes_depositEvent_of_none rfl).trans hchange)
  | setRwaPrice id price =>
      obtain ⟨_, -, hs⟩ := bind_eq_ok.1 h
      cases hs
      exact announces_of_silent rfl (leafNotes_depositEvent_of_none rfl)
  | setAccessConfig id price acc =>
      obtain ⟨_, -, hs⟩ := bind_eq_ok.1 h
      cases hs
      exact announces_of_silent rfl (leafNotes_depositEvent_of_none rfl)
  | purchaseAccessV2 auth pi p =>
      obtain ⟨-, inputs, cfg, hdec, -, -, hspend, s₁, hins, s₂, hpay, rfl⟩ :=
        purchaseAccessV2_eq_ok.1 h
      have hinserted := v2Insert_leafNotes hins
      refine announces_of_silent rfl ?_
      exact (leafNotes_depositEvent_of_none rfl).trans
        ((payFromPool_leafNotes hpay).trans hinserted)
  | depositV2 leaf amount p hints =>
      obtain ⟨_, -, -, ledger, -, s₁, hins, rfl⟩ := depositV2_eq_ok.1 h
      have hinserted := v2Insert_leafNotes hins
      refine announces_of_shown rfl ?_
      refine (leafNotes_depositEvent _).trans ?_
      exact congrArg (· ++ _) hinserted
  | purchaseRwaV2 auth pi p =>
      obtain ⟨-, inputs, hdec, -, hspend, s₁, hins, rfl⟩ := purchaseRwaV2_eq_ok.1 h
      have hinserted := v2Insert_leafNotes hins
      have hshown : (Call.purchaseRwaV2 auth pi p).shownLeaf s = some inputs.changeLeaf := by
        rw [shownLeaf_of_not_hides id, Call.footprint, hdec]
        rfl
      refine announces_of_shown hshown ?_
      refine (leafNotes_depositEvent _).trans ?_
      exact congrArg (· ++ _) hinserted
  | withdrawV2 auth pi p =>
      obtain ⟨-, inputs, hdec, hspend, s₁, hpay, rfl⟩ := withdrawV2_eq_ok.1 h
      refine announces_of_silent ?_ ?_
      · rw [shownLeaf_of_not_hides id, Call.footprint, hdec]
        rfl
      · have hnotes := payFromPool_leafNotes hpay
        exact (leafNotes_depositEvent_of_none rfl).trans hnotes

/-- An announcement stays right when the tree grows. -/
theorem LeafNote.Right.append {n : LeafNote} (h : n.Right hash2 leaves) (leaf : U8Array 32) :
    n.Right hash2 (leaves ++ [leaf]) := by
  obtain ⟨hleaf, hroot⟩ := h
  have hlt : n.index.toNat < leaves.length := (List.getElem?_eq_some_iff.1 hleaf).1
  constructor
  · rw [List.getElem?_append_left hlt, hleaf]
  · rw [hroot, storedRoot_append hlt]

variable (hash2 s leaves) in
/-- The tree has the leaves, and all that is announced of them is right. -/
structure AnnouncesTree : Prop where
  keeps : KeepsTree hash2 s leaves
  right : ∀ n ∈ s.leafNotes, n.Right hash2 leaves

theorem AnnouncesTree.step (hins : T.proofVerifier.v2InsertLeaf = v2InsertLeaf hash2)
    (h : AnnouncesTree hash2 s leaves) {x : Extrinsic A} (hok : apply T s x = .ok s') :
    AnnouncesTree hash2 s' (leaves ++ (x.2.footprint s).leaf.toList) := by
  have hkeeps := h.keeps.step hins (effect_of_apply hok)
  refine ⟨hkeeps, fun n hn => ?_⟩
  have hnotes : Announces s s' x.2 := announces_of_apply hok
  rw [hnotes, List.mem_append] at hn
  rcases hn with hold | hnew
  · have hright := h.right n hold
    cases hleaf : (x.2.footprint s).leaf with
    | none => rwa [Option.toList_none, List.append_nil]
    | some leaf => exact hright.append leaf
  · obtain ⟨leaf, hleaf, rfl⟩ := List.mem_map.1 hnew
    have hshown : x.2.shownLeaf s = some leaf := Option.mem_toList.1 hleaf
    rw [shownLeaf_of_not_hides (not_hides_of_shownLeaf hshown)] at hshown
    rw [hshown] at hkeeps ⊢
    have hcount : s.frontierV2.leafCount.toNat = leaves.length := h.keeps.holds.count
    have hroot : s'.currentRootV2 = treeRoot hash2 (leaves ++ [leaf]) := hkeeps.current
    constructor
    · simp [hcount]
    · rw [hroot, storedRoot, hcount, List.take_of_length_le (by simp), Option.toList_some]

theorem announcesTree_run (hins : T.proofVerifier.v2InsertLeaf = v2InsertLeaf hash2) (ledger : L)
    (xs : List (Extrinsic A)) :
    AnnouncesTree hash2 (run (apply T) (genesis ledger) xs)
      (newLeaves (history (apply T) (genesis ledger) xs)) := by
  have hstart : AnnouncesTree hash2 (genesis ledger) [] := by
    refine ⟨keepsTree_genesis ledger, fun n hn => ?_⟩
    simp [State.leafNotes, genesis] at hn
  have hrun := @history_invariant _ _ _ (apply T) (fun _ _ => True)
    (fun s past => AnnouncesTree hash2 s (newLeaves past))
    (fun s x s' past h _ hs => by
      rw [newLeaves_append]
      exact h.step hins hs)
    (genesis ledger) xs [] hstart fun _ _ => trivial
  simpa using hrun

/-- The leaves that a wallet reads off the events are those that the calls show. -/
theorem leafNotes_run (T : Config A L) (s : State L) (xs : List (Extrinsic A)) :
    (run (apply T) s xs).leafNotes.map LeafNote.leaf = s.leafNotes.map LeafNote.leaf ++
      (history (apply T) s xs).flatMap fun e => (e.2.2.shownLeaf e.1).toList := by
  refine run_log (fun s => s.leafNotes.map LeafNote.leaf) (fun s x => (x.2.shownLeaf s).toList)
    (fun s x s' h => ?_) s xs
  have hnotes : Announces s s' x.2 := announces_of_apply h
  rw [hnotes, List.map_append, List.map_map, Function.comp_def, List.map_id']

theorem newLeaves_eq_flatMap (past : List (State L × Extrinsic A)) :
    newLeaves past = past.flatMap fun e => (e.2.2.footprint e.1).leaf.toList :=
  List.filterMap_eq_flatMap_toList _ past

/-- A call that hides its leaf has one. -/
theorem leaf_isSome_of_hides {x : Extrinsic A} (h : apply T s x = .ok s')
    (hhides : x.2.HidesLeaf) : ((x.2.footprint s).leaf).isSome := by
  obtain ⟨o, call⟩ := x
  cases call with
  | purchaseAccessV2 auth pi p =>
      obtain ⟨-, inputs, cfg, hdec, -⟩ := purchaseAccessV2_eq_ok.1 h
      rw [Call.footprint, hdec]
      rfl
  | _ => exact hhides.elim

theorem shows_history (xs : List (Extrinsic A)) :
    Shows (fun e => (e.2.2.shownLeaf e.1).toList) (fun e => (e.2.2.footprint e.1).leaf.toList)
      (fun e => e.2.2.HidesLeaf) (history (apply T) s xs) := by
  constructor
  · intro e _ hvisible
    rw [shownLeaf_of_not_hides hvisible]
  · intro e he hhides
    obtain ⟨t, ht⟩ := ok_of_mem_history he
    obtain ⟨leaf, hleaf⟩ := Option.isSome_iff_exists.1 (leaf_isSome_of_hides ht hhides)
    have hnone : e.2.2.shownLeaf e.1 = none := by
      cases hshown : e.2.2.shownLeaf e.1 with
      | none => rfl
      | some l => exact absurd hhides (not_hides_of_shownLeaf hshown)
    simp [hleaf, hnone]

/-- In every run from genesis each announcement is right, and the tree that they rebuild
is the pallet's exactly when no call hid its leaf. -/
theorem events_rebuild_tree (T : Config A L)
    (hins : T.proofVerifier.v2InsertLeaf = v2InsertLeaf hash2) (ledger : L)
    (xs : List (Extrinsic A)) :
    (∀ n ∈ (run (apply T) (genesis ledger) xs).leafNotes,
        n.Right hash2 (newLeaves (history (apply T) (genesis ledger) xs))) ∧
      (EventsRebuild hash2 (run (apply T) (genesis ledger) xs) ↔
        ∀ e ∈ history (apply T) (genesis ledger) xs, ¬ e.2.2.HidesLeaf) := by
  have htree := announcesTree_run hins ledger xs
  have hnotes := leafNotes_run T (genesis ledger) xs
  have hshows : Shows _ _ _ (history (apply T) (genesis ledger) xs) := shows_history xs
  have hwhole := newLeaves_eq_flatMap (history (apply T) (genesis ledger) xs)
  refine ⟨htree.right, ?_⟩
  rw [EventsRebuild, hnotes]
  constructor
  · intro hrebuilt
    have hroom := htree.keeps.holds.room
    rw [hwhole] at hroom
    obtain ⟨t, ht, hholds⟩ : ∃ t, Frontier.insertAll hash2 _ = some t ∧ t.Holds hash2 _ :=
      Frontier.insertAll_holds (hshows.length_le.trans hroom)
    obtain rfl : t = (run (apply T) (genesis ledger) xs).frontierV2 :=
      Option.some.inj (ht.symm.trans hrebuilt)
    have hlen := hholds.count.symm.trans htree.keeps.holds.count
    rw [hwhole] at hlen
    exact hshows.not_hides hlen
  · intro hvisible
    have hstores := (storesTree_run hins ledger xs).frontier
    rw [hwhole, ← hshows.flatMap_eq hvisible] at hstores
    exact hstores

/-- The one leaf of the open market came with a deposit; an access bought there hides the
next one. -/
theorem openMarket_rebuilt :
    EventsRebuild (merkleHash2 (poseidonHashes fun _ => U8Array.zero 32))
        (run (apply constantConfig) (genesis tenEach) openMarket) ∧
      ¬ EventsRebuild (merkleHash2 (poseidonHashes fun _ => U8Array.zero 32))
        (run (apply constantConfig) (genesis tenEach) (openMarket ++
          [rebuyAccessCall (run (apply constantConfig) (genesis tenEach) openMarket) 1])) := by
  constructor
  · refine (events_rebuild_tree constantConfig rfl tenEach openMarket).2.2 fun e he => ?_
    have hcall := mem_of_mem_history he
    simp only [openMarket, List.mem_cons, List.not_mem_nil, or_false] at hcall
    rcases hcall with hcall | hcall | hcall <;> rw [hcall] <;> exact id
  · intro hrebuilt
    have hvisible := (events_rebuild_tree constantConfig rfl tenEach _).2.1 hrebuilt
    obtain ⟨_, s₁, _, rfl, -, h₁, -⟩ := rebuyAccess_succeeds fun _ => U8Array.zero 32
    have hlast : (run (apply constantConfig) (genesis tenEach) openMarket,
        rebuyAccessCall (run (apply constantConfig) (genesis tenEach) openMarket) 1) ∈
        history (apply constantConfig) (genesis tenEach) (openMarket ++
          [rebuyAccessCall (run (apply constantConfig) (genesis tenEach) openMarket) 1]) := by
      rw [history_append]
      refine List.mem_append_right _ ?_
      exact (history_cons_ok h₁ []).symm ▸ List.mem_cons_self
    exact hvisible _ hlast trivial

end NullaRelay.ProofHub
