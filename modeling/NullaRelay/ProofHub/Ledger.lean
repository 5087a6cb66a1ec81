import NullaRelay.Foundations.Unspent
import NullaRelay.ProofHub.Accepting
import NullaRelay.ProofHub.Openings

/-!
# The ledger of the v2 lane

What was deposited is what was withdrawn, paid to apps and paid for assets, and the
values of the leaves that nobody has consumed, after every step of every run. The
invariant names the note of each leaf of the tree; a spend under any accepted root
opens one of these notes, and its fresh nullifier says that no spend did before.
-/

namespace NullaRelay.ProofHub

open NullaRelay.Frame V2 Transition Merkle Unspent

variable {A L : Type} {T : Config A L} {s s' : State L} {H : Hashes} {V : ProofVerify}

/-- The amount that a call deposits. -/
def Call.deposited : Call → ℕ
  | .depositV2 _ amount _ _ => amount.toNat
  | _ => 0

/-- The amount that a call withdraws. -/
def Call.withdrawn : Call → ℕ
  | .withdrawV2 _ pi _ => (WithdrawPublicV2.decode pi).elim 0 fun i => i.amount.toNat
  | _ => 0

/-- The price that a call pays to the account of an app. -/
def Call.paidToApp (s : State L) : Call → ℕ
  | .purchaseAccessV2 _ pi _ => (SpendPublicV2.decode pi).elim 0 fun i =>
      (s.accessKeyConfigs i.rwaId).elim 0 fun cfg => cfg.price.toNat
  | _ => 0

/-- The price that a call pays for an asset. -/
def Call.paidForRwa (s : State L) : Call → ℕ
  | .purchaseRwaV2 _ pi _ => (SpendPublicV2.decode pi).elim 0 fun i => (s.rwaPrices i.rwaId).toNat
  | _ => 0

/-- A sum over the accepted calls. -/
def total (f : State L → Call → ℕ) (past : List (State L × Extrinsic A)) : ℕ :=
  (past.map fun e => f e.1 e.2.2).sum

variable (T) in
/-- The steps of the v2 lane in a history. -/
def v2Steps (past : List (State L × Extrinsic A)) : List V2Step :=
  past.filterMap fun e => e.2.2.v2Step T e.1

def V2Step.deposited : V2Step → ℕ
  | .deposit _ amount _ => amount.toNat
  | .spend _ => 0

/-- What a spend takes out of the pool of notes. -/
def V2Step.paid : V2Step → ℕ
  | .deposit .. => 0
  | .spend st => st.priceOrAmount.toNat

namespace Extractor

variable (X : Extractor H V)

/-- The note of the leaf that a step inserts. -/
def newNote : V2Step → Option Note
  | .deposit proof amount leaf => some (X.deposit proof amount leaf)
  | .spend st => if st.purchase then some (X.spend st).change else none

def opening : V2Step → Option Opening
  | .deposit .. => none
  | .spend st => some (X.spend st)

/-- The notes of the leaves inserted, in their order. -/
def notes (steps : List V2Step) : List Note := steps.filterMap X.newNote

/-- The openings of the spends. -/
def openings (steps : List V2Step) : List Opening := steps.filterMap X.opening

/-- The places of the leaves that the spends consume. -/
def consumed (steps : List V2Step) : List ℕ := (X.openings steps).map Opening.index

/-- The values of the leaves inserted and not consumed. -/
def unspentValue (steps : List V2Step) : ℕ :=
  unspent (fun n : Note => n.value.toNat) (X.notes steps) (X.consumed steps)

/-- The notes of the leaves and those that the spends open. -/
def noteSet (steps : List V2Step) : Set Note :=
  {n | n ∈ X.notes steps ∨ ∃ o ∈ X.openings steps, o.note = n}

/-- The pairs hashed in the trees of the leaves and on the paths of the spends. -/
def pairSet (leaves : List (U8Array 32)) (steps : List V2Step) : Set (Pair × Pair) :=
  treePairs H leaves ∪ {p | ∃ o ∈ X.openings steps,
    p ∈ pathPairs H.merkle o.siblings.toList o.index (o.note.hash H)}

variable {X}

theorem notes_append (steps : List V2Step) (step : V2Step) :
    X.notes (steps ++ [step]) = X.notes steps ++ (X.newNote step).toList := by
  cases hnew : X.newNote step <;> simp [notes, hnew]

theorem openings_append (steps : List V2Step) (step : V2Step) :
    X.openings (steps ++ [step]) = X.openings steps ++ (X.opening step).toList := by
  cases hopen : X.opening step <;> simp [openings, hopen]

theorem noteSet_append (steps : List V2Step) (step : V2Step) :
    X.noteSet steps ⊆ X.noteSet (steps ++ [step]) := by
  rintro n (hn | ⟨o, ho, rfl⟩)
  · exact .inl (by rw [notes_append]; exact List.mem_append_left _ hn)
  · exact .inr ⟨o, by rw [openings_append]; exact List.mem_append_left _ ho, rfl⟩

theorem pairSet_append (leaves leaves' : List (U8Array 32)) (steps : List V2Step) (step : V2Step) :
    X.pairSet leaves steps ⊆ X.pairSet (leaves ++ leaves') (steps ++ [step]) := by
  rintro p (hp | ⟨o, ho, hp⟩)
  · exact .inl (treePairs_append leaves leaves' hp)
  · exact .inr ⟨o, by rw [openings_append]; exact List.mem_append_left _ ho, hp⟩

end Extractor

/-- The invariant: each leaf has its note, each spend its place, and the sums agree. -/
structure Balanced (X : Extractor H V) (s : State L) (leaves : List (U8Array 32))
    (steps : List V2Step) : Prop where
  tree : KeepsTree (merkleHash2 H) s leaves
  opened : leaves.map unpack = (X.notes steps).map (Note.hash H)
  placed : ∀ o ∈ X.openings steps, (X.notes steps)[o.index]? = some o.note
  marked : ∀ o ∈ X.openings steps, s.nullifierUsed (packPair (H.nullifier o.note.blinding)) = true
  nodup : (X.consumed steps).Nodup
  identity : (steps.map V2Step.deposited).sum = (steps.map V2Step.paid).sum + X.unspentValue steps

variable {X : Extractor H V} {leaves : List (U8Array 32)} {steps : List V2Step}

theorem balanced_genesis (X : Extractor H V) (ledger : L) : Balanced X (genesis ledger) [] [] where
  tree := keepsTree_genesis ledger
  opened := rfl
  placed o ho := by simp [Extractor.openings] at ho
  marked o ho := by simp [Extractor.openings] at ho
  nodup := List.nodup_nil
  identity := rfl

theorem Balanced.consumed_lt (h : Balanced X s leaves steps) {j : ℕ} (hj : j ∈ X.consumed steps) :
    j < (X.notes steps).length := by
  obtain ⟨o, ho, rfl⟩ := List.mem_map.1 hj
  exact (List.getElem?_eq_some_iff.1 (h.placed o ho)).1

/-- A spend opens the note of a leaf that no spend has consumed. -/
theorem Balanced.spend_placed (h : Balanced X s leaves steps) {st : SpendStatement}
    (hopens : (X.spend st).Opens H st) (hfresh : s.nullifierUsed st.nullifier = false)
    (hroot : s.V2RootAnchored st.root)
    (hcoll : InjectiveOn H (X.noteSet (steps ++ [.spend st]))
      (X.pairSet leaves (steps ++ [.spend st]))) :
    (X.notes steps)[(X.spend st).index]? = some (X.spend st).note ∧
      (X.spend st).index ∉ X.consumed steps := by
  have hmem : X.spend st ∈ X.openings (steps ++ [.spend st]) := by
    rw [Extractor.openings_append]
    simp [Extractor.opening]
  obtain ⟨leaf, hleaf, hhash⟩ := leaf_of_path h.tree hroot hcoll (.inr ⟨_, hmem, rfl⟩)
    (fun p hp => .inl hp) (fun p hp => .inr ⟨_, hmem, hp⟩) hopens.index_lt hopens.path
  have hnote : (X.notes steps)[(X.spend st).index]? = some (X.spend st).note := by
    have hget := congrArg (fun l => l[(X.spend st).index]?) h.opened
    simp only [List.getElem?_map, hleaf, Option.map_some] at hget
    obtain ⟨n, hn, heq⟩ := Option.map_eq_some_iff.1 hget.symm
    have hin : n ∈ X.noteSet (steps ++ [.spend st]) :=
      X.noteSet_append steps _ (.inl (List.mem_of_getElem? hn))
    rw [hn, hcoll.note_inj hin (.inr ⟨_, hmem, rfl⟩) (heq.trans hhash)]
  refine ⟨hnote, fun hconsumed => ?_⟩
  obtain ⟨o, ho, hindex⟩ := List.mem_map.1 hconsumed
  have hsame : o.note = (X.spend st).note := by
    have hplaced := h.placed o ho
    rw [hindex, hnote] at hplaced
    exact (Option.some.inj hplaced).symm
  have hused := h.marked o ho
  rw [hsame, ← hopens.nullifier, hfresh] at hused
  cases hused

section Step

variable {X : Extractor H T.proofVerifier} {f : Footprint}

/-- A call outside the v2 lane. -/
theorem Balanced.kept (h : Balanced X s leaves steps)
    (hins : T.proofVerifier.v2InsertLeaf = v2InsertLeaf (merkleHash2 H)) (heff : Effect T s s' f)
    (hleaf : f.leaf = none) : Balanced X s' leaves steps where
  tree := by
    have htree := h.tree.step hins heff
    rwa [hleaf, Option.toList_none, List.append_nil] at htree
  opened := h.opened
  placed := h.placed
  marked o ho := nullifierUsed_mono heff (h.marked o ho)
  nodup := h.nodup
  identity := h.identity

/-- A deposit adds the note of its leaf. -/
theorem Balanced.deposit (h : Balanced X s leaves steps)
    (hins : T.proofVerifier.v2InsertLeaf = v2InsertLeaf (merkleHash2 H)) (heff : Effect T s s' f)
    {proof : List UInt8} {amount : UInt64} {leaf : U8Array 32}
    (hproof : T.proofVerifier.verifyDepositV2 proof amount leaf = true)
    (hleaf : f.leaf = some leaf) :
    Balanced X s' (leaves ++ [leaf]) (steps ++ [.deposit proof amount leaf]) := by
  obtain ⟨hhash, hvalue⟩ := X.deposit_opens proof amount leaf hproof
  have hnotes : X.notes (steps ++ [.deposit proof amount leaf]) =
      X.notes steps ++ [X.deposit proof amount leaf] := X.notes_append steps _
  have hopenings : X.openings (steps ++ [.deposit proof amount leaf]) = X.openings steps := by
    rw [X.openings_append, Extractor.opening, Option.toList_none, List.append_nil]
  have hconsumed : X.consumed (steps ++ [.deposit proof amount leaf]) = X.consumed steps := by
    rw [Extractor.consumed, hopenings, Extractor.consumed]
  constructor
  · have htree := h.tree.step hins heff
    rwa [hleaf, Option.toList_some] at htree
  · simp [hnotes, h.opened, hhash]
  · intro o ho
    rw [hopenings] at ho
    have hplaced := h.placed o ho
    rw [hnotes, List.getElem?_append_left (List.getElem?_eq_some_iff.1 hplaced).1, hplaced]
  · intro o ho
    rw [hopenings] at ho
    exact nullifierUsed_mono heff (h.marked o ho)
  · rw [hconsumed]
    exact h.nodup
  · rw [Extractor.unspentValue, hnotes, hconsumed, unspent_add (fun j => h.consumed_lt), hvalue,
      ← Extractor.unspentValue, List.map_append, List.map_append, List.sum_append,
      List.sum_append, h.identity]
    simp [V2Step.deposited, V2Step.paid, add_assoc]

/-- A spend consumes a leaf and adds the change. -/
theorem Balanced.spend (h : Balanced X s leaves steps)
    (hins : T.proofVerifier.v2InsertLeaf = v2InsertLeaf (merkleHash2 H)) (heff : Effect T s s' f)
    {st : SpendStatement} (hproof : (V2Step.spend st).accepted T.proofVerifier = true)
    (hchecked : SpendChecked s f st) (hleaf : f.leaf = (V2Step.spend st).leaf)
    (hcoll : InjectiveOn H (X.noteSet (steps ++ [.spend st]))
      (X.pairSet (leaves ++ f.leaf.toList) (steps ++ [.spend st]))) :
    Balanced X s' (leaves ++ f.leaf.toList) (steps ++ [.spend st]) := by
  have hopens := X.spend_opens st hproof
  have hpairs : X.pairSet leaves (steps ++ [.spend st]) ⊆
      X.pairSet (leaves ++ f.leaf.toList) (steps ++ [.spend st]) :=
    Set.union_subset_union_left _ (treePairs_append leaves _)
  obtain ⟨hplaced, hfresh⟩ := h.spend_placed hopens hchecked.fresh hchecked.anchored
    (hcoll.mono subset_rfl hpairs)
  have hopenings : X.openings (steps ++ [.spend st]) = X.openings steps ++ [X.spend st] :=
    X.openings_append steps _
  have hconsumed :
      X.consumed (steps ++ [.spend st]) = X.consumed steps ++ [(X.spend st).index] := by
    rw [Extractor.consumed, hopenings, List.map_append, ← Extractor.consumed]
    rfl
  have hkept (o : Opening) (ho : (X.notes steps)[o.index]? = some o.note) :
      (X.notes (steps ++ [.spend st]))[o.index]? = some o.note := by
    rw [X.notes_append, List.getElem?_append_left (List.getElem?_eq_some_iff.1 ho).1, ho]
  constructor
  · exact h.tree.step hins heff
  · rw [X.notes_append, List.map_append, List.map_append, h.opened, hleaf]
    cases hpurchase : st.purchase with
    | false => simp [V2Step.leaf, Extractor.newNote, hpurchase]
    | true => simp [V2Step.leaf, Extractor.newNote, hpurchase, hopens.change hpurchase]
  · intro o ho
    rw [hopenings, List.mem_append, List.mem_singleton] at ho
    rcases ho with hold | rfl
    · exact hkept o (h.placed o hold)
    · exact hkept _ hplaced
  · intro o ho
    rw [hopenings, List.mem_append, List.mem_singleton] at ho
    rcases ho with hold | rfl
    · exact nullifierUsed_mono heff (h.marked o hold)
    · rw [← hopens.nullifier]
      exact nullifierUsed_of_nullifier heff hchecked.marked
  · rw [hconsumed]
    exact List.nodup_append.2 ⟨h.nodup, List.nodup_singleton _, fun j hj k hk =>
      (List.mem_singleton.1 hk) ▸ ne_of_mem_of_not_mem hj hfresh⟩
  · have hlt : ∀ j ∈ X.consumed (steps ++ [.spend st]), j < (X.notes steps).length := by
      intro j hj
      rw [hconsumed, List.mem_append, List.mem_singleton] at hj
      rcases hj with hold | rfl
      · exact h.consumed_lt hold
      · exact (List.getElem?_eq_some_iff.1 hplaced).1
    have hspent := @unspent_spend _ _ _ (fun n : Note => n.value.toNat) _ _ _ _ hplaced hfresh
    rw [← hconsumed] at hspent
    have hidentity := h.identity
    rw [Extractor.unspentValue, hspent, hopens.value] at hidentity
    rw [Extractor.unspentValue, X.notes_append, List.map_append, List.map_append, List.sum_append,
      List.sum_append, hidentity]
    cases hpurchase : st.purchase with
    | false => simp [V2Step.deposited, V2Step.paid, Extractor.newNote, hpurchase, add_assoc]
    | true =>
        simp only [Extractor.newNote, hpurchase, if_true, Option.toList_some, unspent_add hlt]
        simp [V2Step.deposited, V2Step.paid]
        ring

end Step

theorem v2Steps_append (past : List (State L × Extrinsic A)) (e : State L × Extrinsic A) :
    v2Steps T (past ++ [e]) = v2Steps T past ++ (e.2.2.v2Step T e.1).toList := by
  cases hstep : e.2.2.v2Step T e.1 <;> simp [v2Steps, hstep]

/-- The hashes do not collide on the notes and the tree nodes of a history. -/
def Extractor.CollisionFree (X : Extractor H T.proofVerifier)
    (past : List (State L × Extrinsic A)) : Prop :=
  InjectiveOn H (X.noteSet (v2Steps T past)) (X.pairSet (newLeaves past) (v2Steps T past))

theorem Extractor.CollisionFree.of_append {X : Extractor H T.proofVerifier}
    {past : List (State L × Extrinsic A)} {e : State L × Extrinsic A}
    (h : X.CollisionFree (past ++ [e])) : X.CollisionFree past := by
  refine InjectiveOn.mono h ?_ ?_
  · rw [v2Steps_append]
    cases e.2.2.v2Step T e.1 with
    | none => simp
    | some step => exact X.noteSet_append _ step
  · rw [newLeaves_append, v2Steps_append]
    cases e.2.2.v2Step T e.1 with
    | none =>
        rw [Option.toList_none, List.append_nil]
        exact Set.union_subset_union_left _ (treePairs_append _ _)
    | some step => exact X.pairSet_append _ _ _ step

/-- One accepted call keeps the invariant. -/
theorem balanced_step {X : Extractor H T.proofVerifier}
    (hins : T.proofVerifier.v2InsertLeaf = v2InsertLeaf (merkleHash2 H))
    {past : List (State L × Extrinsic A)} {x : Extrinsic A} (hs : apply T s x = .ok s')
    (hcoll : X.CollisionFree (past ++ [(s, x)]))
    (h : Balanced X s (newLeaves past) (v2Steps T past)) :
    Balanced X s' (newLeaves (past ++ [(s, x)])) (v2Steps T (past ++ [(s, x)])) := by
  unfold Extractor.CollisionFree at hcoll
  rw [newLeaves_append, v2Steps_append] at hcoll ⊢
  have heff := effect_of_apply hs
  cases hstep : x.2.v2Step T s with
  | none =>
      have hleaf := leaf_eq_none_of_v2Step hs hstep
      simp only [hleaf, Option.toList_none, List.append_nil]
      exact h.kept hins heff hleaf
  | some step =>
      obtain ⟨hproof, hleaf, hspend⟩ := v2Step_spec hs hstep
      simp only [hstep, Option.toList_some] at hcoll ⊢
      cases step with
      | deposit proof amount leaf =>
          have hleaf : (x.2.footprint s).leaf = some leaf := hleaf
          simp only [hleaf, Option.toList_some]
          exact h.deposit hins heff hproof hleaf
      | spend st => exact h.spend hins heff hproof (hspend st rfl) hleaf hcoll

/-- Every run from genesis keeps the invariant. -/
theorem balanced_run {X : Extractor H T.proofVerifier}
    (hins : T.proofVerifier.v2InsertLeaf = v2InsertLeaf (merkleHash2 H)) (ledger : L)
    (xs : List (Extrinsic A)) (hcoll : X.CollisionFree (history (apply T) (genesis ledger) xs)) :
    Balanced X (run (apply T) (genesis ledger) xs)
      (newLeaves (history (apply T) (genesis ledger) xs))
      (v2Steps T (history (apply T) (genesis ledger) xs)) := by
  have hrun := @history_invariant _ _ _ (apply T) (fun _ _ => True)
    (fun s past => X.CollisionFree past → Balanced X s (newLeaves past) (v2Steps T past))
    (fun s x s' past ih _ hs hcoll => balanced_step hins hs hcoll (ih hcoll.of_append))
    (genesis ledger) xs [] (fun _ => balanced_genesis X ledger) fun _ _ => trivial
  exact hrun hcoll

theorem Call.deposited_eq (s : State L) (call : Call) :
    call.deposited = ((call.v2Step T s).map V2Step.deposited).getD 0 := by
  cases call with
  | purchaseRwaV2 auth pi p =>
      cases hdec : SpendPublicV2.decode pi <;>
        simp [Call.deposited, Call.v2Step, hdec, V2Step.deposited]
  | purchaseAccessV2 auth pi p =>
      cases hdec : SpendPublicV2.decode pi with
      | none => simp [Call.deposited, Call.v2Step, hdec]
      | some i =>
          cases hcfg : s.accessKeyConfigs i.rwaId <;>
            simp [Call.deposited, Call.v2Step, hdec, hcfg, V2Step.deposited]
  | withdrawV2 auth pi p =>
      cases hdec : WithdrawPublicV2.decode pi <;>
        simp [Call.deposited, Call.v2Step, hdec, V2Step.deposited]
  | _ => rfl

theorem Call.paid_eq (s : State L) (call : Call) :
    call.withdrawn + call.paidToApp s + call.paidForRwa s =
      ((call.v2Step T s).map V2Step.paid).getD 0 := by
  cases call with
  | purchaseRwaV2 auth pi p =>
      cases hdec : SpendPublicV2.decode pi <;>
        simp [Call.withdrawn, Call.paidToApp, Call.paidForRwa, Call.v2Step, hdec, V2Step.paid,
          SpendPublicV2.statement]
  | purchaseAccessV2 auth pi p =>
      cases hdec : SpendPublicV2.decode pi with
      | none => simp [Call.withdrawn, Call.paidToApp, Call.paidForRwa, Call.v2Step, hdec]
      | some i =>
          cases hcfg : s.accessKeyConfigs i.rwaId <;>
            simp [Call.withdrawn, Call.paidToApp, Call.paidForRwa, Call.v2Step, hdec, hcfg,
              V2Step.paid, SpendPublicV2.statement]
  | withdrawV2 auth pi p =>
      cases hdec : WithdrawPublicV2.decode pi <;>
        simp [Call.withdrawn, Call.paidToApp, Call.paidForRwa, Call.v2Step, hdec, V2Step.paid,
          WithdrawPublicV2.statement]
  | _ => rfl

/-- A sum over the v2 steps is a sum over the calls. -/
theorem sum_v2Steps (f : V2Step → ℕ) (past : List (State L × Extrinsic A)) :
    ((v2Steps T past).map f).sum = total (fun s c => ((c.v2Step T s).map f).getD 0) past := by
  induction past with
  | nil => rfl
  | cons e past ih =>
      have hcons : total (fun s c => ((c.v2Step T s).map f).getD 0) (e :: past) =
          ((e.2.2.v2Step T e.1).map f).getD 0 + ((v2Steps T past).map f).sum := by
        rw [ih]
        rfl
      rw [hcons]
      cases hstep : e.2.2.v2Step T e.1 <;> simp [v2Steps, hstep]

theorem total_add (f g : State L → Call → ℕ) (past : List (State L × Extrinsic A)) :
    total (fun s c => f s c + g s c) past = total f past + total g past :=
  List.sum_map_add

/-- The books of a history: the leaves open to the notes, no two spends consume the
leaf of one place, each spend opens the note of the leaf that it consumes, and the
deposits are what was paid out and what is left. -/
structure Accounted (X : Extractor H T.proofVerifier) (past : List (State L × Extrinsic A)) :
    Prop where
  opened : (newLeaves past).map unpack = (X.notes (v2Steps T past)).map (Note.hash H)
  placed : ∀ o ∈ X.openings (v2Steps T past), (X.notes (v2Steps T past))[o.index]? = some o.note
  once : (X.consumed (v2Steps T past)).Nodup
  identity : total (fun _ c => c.deposited) past =
    total (fun _ c => c.withdrawn) past + total (fun s c => c.paidToApp s) past +
      total (fun s c => c.paidForRwa s) past + X.unspentValue (v2Steps T past)

/-- After every step of a run the books are right, as long as the hashes of its notes
and tree nodes do not collide. -/
theorem accounted_run (X : Extractor H T.proofVerifier)
    (hins : T.proofVerifier.v2InsertLeaf = v2InsertLeaf (merkleHash2 H)) (ledger : L)
    (xs : List (Extrinsic A)) (hcoll : X.CollisionFree (history (apply T) (genesis ledger) xs)) :
    Accounted X (history (apply T) (genesis ledger) xs) := by
  have hbal := balanced_run hins ledger xs hcoll
  refine ⟨hbal.opened, hbal.placed, hbal.nodup, ?_⟩
  have hidentity := hbal.identity
  rw [sum_v2Steps, sum_v2Steps] at hidentity
  simp only [← Call.deposited_eq, ← Call.paid_eq, total_add] at hidentity
  exact hidentity

/-! A deposit of ten and its withdrawal, over hashes that keep the height and the mark of
the node on the left. -/

section Example

/-- A node is its height and the mark of its leftmost leaf; a note marks its value. -/
def markHashes : Hashes where
  note v _ _ := (0, ofU64 v)
  nullifier b := b
  merkle l _ := (l.1 + 1, l.2)

/-- The siblings of a path along the left edge: empty subtrees. -/
def markSiblings (d n : ℕ) : List Pair := (List.range' d n).map fun k => ((k : BaseElement), 0)

theorem mark_pathRoot (ss : List Pair) (x : Pair) :
    pathRoot markHashes.merkle ss 0 x = (x.1 + ss.length, x.2) := by
  induction ss generalizing x with
  | nil => simp [pathRoot]
  | cons sib ss ih =>
      have hstep : pathRoot markHashes.merkle (sib :: ss) 0 x =
          pathRoot markHashes.merkle ss 0 (x.1 + 1, x.2) := rfl
      rw [hstep, ih, List.length_cons, Nat.cast_succ]
      ring_nf

/-- The pairs on that path: a node and the empty subtree of its height. -/
def EdgePair (p : Pair × Pair) : Prop :=
  ∃ d < merkleDepth, p.1.1 = (d : BaseElement) ∧ p.2 = (p.1.1, 0)

theorem mark_pathPairs {d n : ℕ} (h : d + n ≤ merkleDepth) (m : BaseElement) :
    ∀ p ∈ pathPairs markHashes.merkle (markSiblings d n) 0 ((d : BaseElement), m), EdgePair p := by
  induction n generalizing d with
  | zero => simp [markSiblings, pathPairs]
  | succ n ih =>
      intro p hp
      rcases List.mem_cons.1 hp with rfl | hp
      · exact ⟨d, by omega, rfl, rfl⟩
      · have hnext : ((d : BaseElement) + 1, m) = (((d + 1 : ℕ) : BaseElement), m) := by
          rw [Nat.cast_succ]
        refine ih (d := d + 1) (by omega) p ?_
        rw [← hnext]
        exact hp

theorem mark_node (f : ℕ → Pair) (hf : ∀ i, (f i).1 = 0) (hzero : ∀ i, 0 < i → f i = 0) (d j : ℕ) :
    node markHashes.merkle f d j = ((d : BaseElement), if j = 0 then (f 0).2 else 0) := by
  induction d generalizing j with
  | zero =>
      rcases Nat.eq_zero_or_pos j with rfl | hj
      · exact Prod.ext (by simpa [node] using hf 0) rfl
      · simp [node, hzero j hj, hj.ne', Prod.ext_iff]
  | succ d ih =>
      have hstep : node markHashes.merkle f (d + 1) j =
          ((node markHashes.merkle f d (2 * j)).1 + 1,
            (node markHashes.merkle f d (2 * j)).2) := rfl
      rw [hstep, ih]
      simp

/-- The leaf that marks a value. -/
def markLeaf (v : UInt64) : U8Array 32 := packPair (0, ofU64 v)

theorem mark_treePairs (v : UInt64) {p : Pair × Pair} (hp : p ∈ treePairs markHashes [markLeaf v]) :
    EdgePair p := by
  obtain ⟨k, d, j, hd, rfl⟩ := hp
  have hleaf (i : ℕ) : unpack (leafAt ([markLeaf v].take k) i) = (0, ofU64 v) ∨
      unpack (leafAt ([markLeaf v].take k) i) = 0 := by
    cases k with
    | zero => exact .inr (by simp [leafAt])
    | succ k =>
        cases i with
        | zero => exact .inl (by simp [leafAt, markLeaf])
        | succ i => exact .inr (by simp [leafAt])
  have hfirst (i : ℕ) : (unpack (leafAt ([markLeaf v].take k) i)).1 = 0 := by
    rcases hleaf i with h | h <;> rw [h]
    rfl
  have hzero (i : ℕ) (hi : 0 < i) : unpack (leafAt ([markLeaf v].take k) i) = 0 := by
    have hlen : ([markLeaf v].take k).length ≤ i := (List.length_take_le' k _).trans hi
    rw [leafAt_of_le hlen, unpack_zero]
    rfl
  refine ⟨d, hd, ?_, ?_⟩
  · rw [nodePair, mark_node _ hfirst hzero]
  · rw [nodePair, mark_node _ hfirst hzero, mark_node _ hfirst hzero]
    simp

theorem mark_injectiveOn {n : Note} (hn : n.value ≠ 0) :
    InjectiveOn markHashes {n} {p | EdgePair p} where
  note_inj := Set.injOn_singleton _ _
  note_ne m hm h := by
    obtain rfl : m = n := hm
    have hvalue : ofU64 m.value = ofU64 0 := (congrArg Prod.snd h).trans Nat.cast_zero.symm
    exact hn (ofU64_inj hvalue)
  merkle_inj p hp q hq h := by
    obtain ⟨-, -, -, hp⟩ := hp
    obtain ⟨-, -, -, hq⟩ := hq
    have hheight : p.1.1 + 1 = q.1.1 + 1 := (congrArg Prod.fst h :)
    have hmark : p.1.2 = q.1.2 := (congrArg Prod.snd h :)
    have hleft : p.1 = q.1 := Prod.ext (add_right_cancel hheight) hmark
    exact Prod.ext hleft (by rw [hp, hq, hleft])
  merkle_ne p hp h := by
    obtain ⟨d, hd, hfst, -⟩ := hp
    have hcast : ((d + 1 : ℕ) : BaseElement) = ((0 : ℕ) : BaseElement) := by
      rw [Nat.cast_succ, ← hfst, Nat.cast_zero]
      exact congrArg Prod.fst h
    have hlt : d + 1 < baseModulus := by
      rw [baseModulus_eq]
      have hd : d < 20 := hd
      omega
    exact Nat.succ_ne_zero d (BaseElement.new_inj hlt (by rw [baseModulus_eq]; norm_num) hcast)

/-- A verifier that accepts the deposit of a marked leaf, and the withdrawal of its value
with the nullifier zero. -/
def markVerifier : ProofVerify :=
  { runtimeProofVerifier (acceptingPrimitives SpendAir.zeroBlake3) with
    verifyDepositV2 := fun _ amount leaf => leaf = markLeaf amount
    verifySpendV2 := fun _ root nullifier _ amount _ _ purchase =>
      purchase = false ∧ nullifier = packPair (0, 0) ∧
        unpack root = ((merkleDepth : BaseElement), ofU64 amount)
    v2InsertLeaf := V2.v2InsertLeaf (merkleHash2 markHashes) }

theorem mark_verifySpendV2 {st : SpendStatement} :
    (V2Step.spend st).accepted markVerifier = true ↔ st.purchase = false ∧
      st.nullifier = packPair (0, 0) ∧
      unpack st.root = ((merkleDepth : BaseElement), ofU64 st.priceOrAmount) := by
  simp [V2Step.accepted, markVerifier]

def markNote (v : UInt64) : Note := { value := v, blinding := (0, 0), pkd := (0, 0) }

def markExtractor : Extractor markHashes markVerifier where
  deposit _ amount _ := markNote amount
  spend st :=
    { note := { value := st.priceOrAmount, blinding := (0, 0), pkd := unpack st.pkd }
      index := 0
      siblings := ⟨markSiblings 0 20, by simp [markSiblings]⟩
      change := markNote 0 }
  deposit_opens _ amount leaf h := by
    rw [of_decide_eq_true h]
    exact ⟨unpack_packPair _, rfl⟩
  spend_opens st h := by
    obtain ⟨hmode, hnullifier, hroot⟩ := mark_verifySpendV2.1 h
    refine ⟨by norm_num, hnullifier, ?_, fun hpurchase => ?_, by simp [hmode]⟩
    · rw [hroot]
      refine (mark_pathRoot _ _).trans ?_
      simp [Note.hash, markHashes, markSiblings, merkleDepth, List.Vector.toList]
    · rw [hmode] at hpurchase
      cases hpurchase

def markConfig : Config (U8Array 32) (U8Array 32 → ℕ) :=
  { acceptingConfig SpendAir.zeroBlake3 with proofVerifier := markVerifier }

def markDeposit : Extrinsic (U8Array 32) :=
  (.signed (U8Array.ofNat 32 1), .depositV2 (markLeaf 10) 10 BoundedVec.empty BoundedVec.empty)

def markWithdrawal : WithdrawPublicV2 where
  merkleRoot := treeRoot (merkleHash2 markHashes) [markLeaf 10]
  nullifier := packPair (0, 0)
  amount := 10
  destination := U8Array.zero 32
  txId := U8Array.zero 16

def markRun : List (Extrinsic (U8Array 32)) :=
  [markDeposit, (.none, .withdrawV2 anyAuth markWithdrawal.encode [])]

theorem unpack_markRoot :
    unpack (treeRoot (merkleHash2 markHashes) [markLeaf 10]) =
      ((merkleDepth : BaseElement), ofU64 10) := by
  have hroom : [markLeaf 10].length < 2 ^ merkleDepth := by norm_num [merkleDepth]
  have hzero (i : ℕ) (hi : 0 < i) : unpack (leafAt [markLeaf 10] i) = 0 := by
    rw [leafAt_of_le hi, unpack_zero]
    rfl
  have hfirst (i : ℕ) : (unpack (leafAt [markLeaf 10] i)).1 = 0 := by
    cases i with
    | zero => simp [leafAt, markLeaf]
    | succ i => rw [hzero _ i.succ_pos]; rfl
  rw [treeRoot, if_neg (List.cons_ne_nil _ _), if_pos hroom,
    map_node (unpack_merkleHash2 markHashes), mark_node _ hfirst hzero]
  simp [leafAt, markLeaf]

theorem markDeposit_ok : ∃ s₁, apply markConfig (genesis tenEach) markDeposit = .ok s₁ ∧
    KeepsTree (merkleHash2 markHashes) s₁ [markLeaf 10] ∧ s₁.nullifierUsed = (fun _ => false) ∧
    10 ≤ s₁.ledger (U8Array.zero 32) := by
  have hbal : (10 : UInt64).toNat ≤ tenEach (U8Array.ofNat 32 1) := by decide
  have hpay := balances_transfer_of_le hbal (U8Array.zero 32) .keepAlive
  have hempty : Frontier.empty.Holds (merkleHash2 markHashes) [] := Frontier.holds_empty
  obtain ⟨⟨t, newRoot⟩, hins⟩ :=
    v2InsertLeaf_isSome hempty (by norm_num [merkleDepth]) (markLeaf 10)
  have hproof : markConfig.proofVerifier.verifyDepositV2 [] 10 (markLeaf 10) = true :=
    (decide_eq_true rfl : decide (markLeaf 10 = markLeaf 10) = true)
  have hok : apply markConfig (genesis tenEach) markDeposit = .ok _ :=
    depositV2_eq_ok.2 ⟨_, rfl, hproof, _, hpay, _,
      v2Insert_eq_ok.2 ⟨rfl, t, newRoot, hins, rfl⟩, rfl⟩
  have htree := (keepsTree_genesis tenEach).step (T := markConfig) rfl (effect_of_apply hok)
  have hne : U8Array.ofNat 32 1 ≠ U8Array.zero 32 := by decide
  have hpool : (10 : ℕ) ≤ moveBalance tenEach (U8Array.ofNat 32 1) (U8Array.zero 32) 10
      (U8Array.zero 32) := by
    rw [moveBalance_dest hne]
    exact Nat.le_add_left _ _
  exact ⟨_, hok, htree, rfl, hpool⟩

theorem markWithdrawal_ok {s : State (U8Array 32 → ℕ)}
    (htree : KeepsTree (merkleHash2 markHashes) s [markLeaf 10])
    (hfresh : s.nullifierUsed (packPair (0, 0)) = false) (hpool : 10 ≤ s.ledger (U8Array.zero 32)) :
    ∃ s', apply markConfig s (.none, .withdrawV2 anyAuth markWithdrawal.encode []) = .ok s' := by
  have hproof : (V2Step.spend (markWithdrawal.statement markConfig anyAuth [])).accepted
      markVerifier = true :=
    mark_verifySpendV2.2 ⟨rfl, rfl, unpack_markRoot⟩
  have hspend : Spendable markConfig s anyAuth markWithdrawal.encode [] markWithdrawal.merkleRoot
      markWithdrawal.nullifier markWithdrawal.amount markConfig.proofVerifier.v2ZeroChangeLeaf
      (U8Array.zero 32) true :=
    ⟨hfresh, .inl htree.current.symm, accepting_verifySigned _ _,
      by rw [anyAuth_length]; norm_num, hproof⟩
  have hpay := balances_transfer_of_le hpool (U8Array.zero 32) .allowDeath
  have hdest : copyFromSlice 32 markWithdrawal.destination.toList = some (U8Array.zero 32) := rfl
  exact ⟨_, withdrawV2_eq_ok.2 ⟨rfl, _, WithdrawPublicV2.decode_encode _, hspend, _,
    payFromPool_eq_ok.2 ⟨_, hdest, _, hpay, rfl⟩, rfl⟩⟩

/-- Both calls of the run are accepted, and its books are right. -/
theorem markRun_accounted : ∃ s₁,
    history (apply markConfig) (genesis tenEach) markRun =
        [(genesis tenEach, markDeposit),
          (s₁, (.none, .withdrawV2 anyAuth markWithdrawal.encode []))] ∧
      @Accounted _ _ markConfig _ markExtractor
        (history (apply markConfig) (genesis tenEach) markRun) := by
  obtain ⟨s₁, h₁, htree, hused, hpool⟩ := markDeposit_ok
  obtain ⟨s₂, h₂⟩ := markWithdrawal_ok htree (by rw [hused]) hpool
  have hhistory : history (apply markConfig) (genesis tenEach) markRun =
      [(genesis tenEach, markDeposit),
        (s₁, (.none, .withdrawV2 anyAuth markWithdrawal.encode []))] := by
    rw [markRun, history_cons_ok h₁, history_cons_ok h₂, history_nil]
  have hsteps : v2Steps markConfig (history (apply markConfig) (genesis tenEach) markRun) =
      [.deposit [] 10 (markLeaf 10), .spend (markWithdrawal.statement markConfig anyAuth [])] := by
    rw [hhistory]
    simp [v2Steps, markDeposit, Call.v2Step, WithdrawPublicV2.decode_encode]
  have hleaves : newLeaves (history (apply markConfig) (genesis tenEach) markRun) =
      [markLeaf 10] := by
    rw [hhistory]
    simp [newLeaves, markDeposit, Call.footprint, WithdrawPublicV2.decode_encode]
  have hcoll := @accounted_run _ _ markConfig _ markExtractor rfl tenEach markRun
  unfold Extractor.CollisionFree at hcoll
  rw [hsteps, hleaves] at hcoll
  have hten : (markNote 10).value ≠ 0 := by decide
  have hopening : (markExtractor.spend (markWithdrawal.statement markConfig anyAuth [])).note =
      markNote 10 := by
    have hpkd : unpack (pkDigest markConfig.blake3 (anyAuth.take 1312)) = (0, 0) := unpack_zero
    simp only [markExtractor, WithdrawPublicV2.statement, hpkd]
    rfl
  refine ⟨s₁, hhistory, hcoll ((mark_injectiveOn hten).mono ?_ ?_)⟩
  · rintro n (hn | ⟨o, ho, rfl⟩)
    · exact List.mem_singleton.1 hn
    · obtain rfl := List.mem_singleton.1 ho
      exact hopening
  · rintro p (hp | ⟨o, ho, hp⟩)
    · exact mark_treePairs 10 hp
    · obtain rfl := List.mem_singleton.1 ho
      rw [hopening] at hp
      have hzero : (markNote 10).hash markHashes = (((0 : ℕ) : BaseElement), ofU64 10) :=
        Prod.ext Nat.cast_zero.symm rfl
      rw [hzero] at hp
      exact mark_pathPairs (by norm_num [merkleDepth]) _ p hp

end Example

end NullaRelay.ProofHub
